import HeapShape.State.Judgement

/-!
# Reports

What a check of a program tells: the judgement of each directive on each path that comes
to it, the defect of each path that ends with one, and how many paths there were.

* `Report.isClean`: whether nothing is wrong;
* `Report.text`: the report in words.
-/

namespace HeapShape

/-- The judgement of a directive on a path. -/
structure Verdict where
  /-- The path. -/
  path : PathId
  /-- Where the directive is. -/
  span : Span
  /-- The directive. -/
  directive : Directive
  /-- Its judgement. -/
  judgement : Judgement
  deriving DecidableEq

/-- The line for a verdict. -/
def Verdict.text (v : Verdict) : String :=
  "path " ++ toString v.path ++ " at " ++ v.span.text ++ ": " ++ v.directive.text ++ ": " ++ v.judgement.text

/-- The defect that ends a path. -/
structure Violation where
  /-- The path. -/
  path : PathId
  /-- Where it ends. -/
  span : Span
  /-- The defect. -/
  defect : Defect
  deriving DecidableEq

/-- The line for a violation. -/
def Violation.text (v : Violation) : String :=
  "path " ++ toString v.path ++ " at " ++ v.span.text ++ ": " ++ v.defect.label ++ ": " ++ v.defect.message

/-- How many paths there were. -/
structure Stats where
  /-- Paths that were started. -/
  explored : Nat
  /-- Paths that came to the end of the program. -/
  completed : Nat
  /-- Paths that came to a known shape at the head of a loop. -/
  merged : Nat
  /-- Paths that ended with a defect. -/
  failed : Nat
  /-- Whether there were more paths than allowed. -/
  truncated : Bool
  deriving DecidableEq

/-- What a check of a program tells. -/
structure Report where
  /-- The judgements of directives, the first one first. -/
  verdicts : Array Verdict
  /-- The defects, the first one first. -/
  violations : Array Violation
  /-- How many paths there were. -/
  stats : Stats
  /-- The drawings of the heaps at the end of paths. -/
  heaps : Array (PathId × String)
  deriving DecidableEq

namespace Report

/-- The report before anything is done. -/
def empty : Report := ⟨#[], #[], ⟨0, 0, 0, 0, false⟩, #[]⟩

/-- Whether every directive passed and no path ended with a defect. -/
def isClean (r : Report) : Bool := r.violations.isEmpty && r.verdicts.all (·.judgement.isPass)

/-- The verdicts of directives that failed. -/
def failedVerdicts (r : Report) : List Verdict := r.verdicts.toList.filter (!·.judgement.isPass)

/-- The verdicts of the directive at a position. -/
def verdictsAt (r : Report) (span : Span) : List Verdict := r.verdicts.toList.filter (·.span = span)

/-- The report in words. -/
def text (r : Report) : String :=
  let lines := r.verdicts.toList.map Verdict.text ++ r.violations.toList.map Violation.text
  String.join (lines.map (· ++ "\n")) ++
    toString r.stats.explored ++ " paths explored, " ++ toString r.stats.completed ++ " completed, " ++
    toString r.stats.merged ++ " merged, " ++ toString r.stats.failed ++ " failed" ++
    (if r.stats.truncated then " (truncated)" else "")

end Report

end HeapShape
