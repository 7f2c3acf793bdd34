import HeapShape.Heap.Shape
import HeapShape.Token.Scan
import Mathlib.Data.List.Sort
import Mathlib.Data.String.Basic

/-!
# Shapes can be read back

A shape is a text of *words* (names, numbers, and what is made of both), kept apart by
characters that no word has. So it can be read from left to right in one way only: first the
values, then the nodes of the locations one by one, then the constraints. Two equal shapes agree
in each of these parts.

* `Node`, `Constraint`: what is known of a location, and of sets, with values, sets and locations
  named by things of any kind;
* `Node.text_append_inj`: a description of a location tells where it ends;
* `Constraint.text_inj`: a line tells its constraint;
* `Heap.shape_eq_iff`: when two heaps have the same shape.
-/

namespace HeapShape

open List hiding set

/-! ### Words -/

/-- A name that the scanner reads as one token. -/
def Token.isIdent (s : String) : Bool :=
  match s.toList with
  | [] => false
  | c :: cs => startsIdent c && cs.all continuesIdent

namespace Outline

/-- Whether names and numbers have a character. -/
def isWordChar (c : Char) : Bool := Token.continuesIdent c || c = '#' || c = '?'

/-- A text that is not empty, all of whose characters are of a kind. -/
def Over (p : Char → Bool) (w : String) : Prop := w.toList ≠ [] ∧ ∀ c ∈ w.toList, p c = true

instance (p : Char → Bool) (w : String) : Decidable (Over p w) :=
  decidable_of_iff (w.toList ≠ [] ∧ w.toList.all p = true) (by rw [all_eq_true, Over])

/-- A text that a shape has between two separators. -/
abbrev IsWord (w : String) : Prop := Over isWordChar w

/-- A text does not start with a character of a kind. -/
def Ends (p : Char → Bool) (r : List Char) : Prop := ∀ c ∈ r.head?, p c = false

variable {p : Char → Bool} {w w' : String} {r r' : List Char}

theorem ends_cons {c : Char} (h : p c = false) : Ends p (c :: r) := by
  rintro _ ⟨⟩
  exact h

theorem takeWhile_of_ends (h : Ends p r) : r.takeWhile p = [] := by
  rcases r with _ | ⟨c, r⟩
  · rfl
  · rw [takeWhile_cons, h c rfl]
    rfl

/-- Where characters of a kind end, the text in front is known. -/
theorem append_inj (hw : Over p w) (hw' : Over p w') (hr : Ends p r) (hr' : Ends p r')
    (h : w.toList ++ r = w'.toList ++ r') : w = w' ∧ r = r' := by
  have hfront : w.toList = w'.toList := by
    have := congrArg (List.takeWhile p) h
    rwa [takeWhile_append_of_pos hw.2, takeWhile_append_of_pos hw'.2,
      takeWhile_of_ends hr, takeWhile_of_ends hr', append_nil, append_nil] at this
  refine ⟨String.toList_inj.1 hfront, ?_⟩
  rw [hfront] at h
  exact append_cancel_left h

/-! ### Lists of words -/

/-- Texts that each come after a comma. -/
def more (sep : List Char) (l : List String) : List Char := l.flatMap fun w => ',' :: sep ++ w.toList

/-- Texts with a comma between each two of them. -/
def commas (sep : List Char) : List String → List Char
  | [] => []
  | w :: l => w.toList ++ more sep l

theorem toList_intercalate (sep : String) (l : List String) :
    (("," ++ sep).intercalate l).toList = commas sep.toList l := by
  rw [String.toList_intercalate]
  rcases l with _ | ⟨w, l⟩
  · rfl
  · induction l generalizing w with
    | nil => simp [commas, more]
    | cons v l ih =>
      rw [map_cons, map_cons, intercalate_cons_cons, ← map_cons, ih v]
      simp [commas, more]

/-- A text starts neither with a character of a kind nor with a comma. -/
def Closes (p : Char → Bool) (r : List Char) : Prop := ∀ c ∈ r.head?, p c = false ∧ c ≠ ','

theorem closes_nil : Closes p [] := fun _ h => by cases h

theorem closes_cons {c : Char} (h : p c = false) (hc : c ≠ ',') : Closes p (c :: r) := by
  rintro _ ⟨⟩
  exact ⟨h, hc⟩

variable {sep : List Char} {l l' : List String}

theorem Closes.ends_more (hr : Closes p r) (hc : p ',' = false) : Ends p (more sep l ++ r) := by
  rcases l with _ | ⟨w, l⟩
  · exact fun c hcr => (hr c hcr).1
  · exact ends_cons hc

theorem Closes.ne_more (hr : Closes p r) (w : String) : r ≠ more sep (w :: l) ++ r' := by
  intro h
  exact (hr ',' (by rw [h]; rfl)).2 rfl

theorem Closes.ne_append (hr : Closes p r) (hw : Over p w) : r ≠ w.toList ++ r' := by
  intro h
  obtain ⟨c, cs, hcs⟩ := exists_cons_of_ne_nil hw.1
  have hend := (hr c (by rw [h, hcs]; rfl)).1
  rw [hw.2 c (hcs ▸ .head _)] at hend
  cases hend

theorem more_append_inj (hc : p ',' = false) (hl : ∀ w ∈ l, Over p w) (hl' : ∀ w ∈ l', Over p w)
    (hr : Closes p r) (hr' : Closes p r') (h : more sep l ++ r = more sep l' ++ r') :
    l = l' ∧ r = r' := by
  induction l generalizing l' with
  | nil =>
    rcases l' with _ | ⟨w', l'⟩
    · exact ⟨rfl, h⟩
    · exact (hr.ne_more w' h).elim
  | cons w l ih =>
    rcases l' with _ | ⟨w', l'⟩
    · exact (hr'.ne_more w h.symm).elim
    · have hcut : w.toList ++ (more sep l ++ r) = w'.toList ++ (more sep l' ++ r') := by
        refine (append_right_inj (',' :: sep)).1 ?_
        simpa only [more, flatMap_cons, append_assoc, cons_append] using h
      obtain ⟨rfl, hrest⟩ := append_inj (hl w (.head _)) (hl' w' (.head _)) (hr.ends_more hc)
        (hr'.ends_more hc) hcut
      obtain ⟨rfl, rfl⟩ := ih (fun w hw => hl w (.tail _ hw)) (fun w hw => hl' w (.tail _ hw)) hrest
      exact ⟨rfl, rfl⟩

/-- A list of texts ends where no text goes on and no comma comes. -/
theorem commas_append_inj (hc : p ',' = false) (hl : ∀ w ∈ l, Over p w) (hl' : ∀ w ∈ l', Over p w)
    (hr : Closes p r) (hr' : Closes p r') (h : commas sep l ++ r = commas sep l' ++ r') :
    l = l' ∧ r = r' := by
  rcases l with _ | ⟨w, l⟩ <;> rcases l' with _ | ⟨w', l'⟩
  · exact ⟨rfl, h⟩
  · exact (hr.ne_append (hl' w' (.head _)) (h.trans (append_assoc ..))).elim
  · exact (hr'.ne_append (hl w (.head _)) (h.symm.trans (append_assoc ..))).elim
  · have hmore : more sep (w :: l) ++ r = more sep (w' :: l') ++ r' := by
      simpa only [more, flatMap_cons, append_assoc, commas] using congrArg ((',' :: sep) ++ ·) h
    exact more_append_inj hc hl hl' hr hr' hmore

/-! ### The words of a shape -/

theorem isWord_append {s : String} (hs : s.toList.all isWordChar = true) (hw : IsWord w) :
    IsWord (s ++ w) := by
  rw [IsWord, Over, String.toList_append]
  refine ⟨append_ne_nil_of_right_ne_nil _ hw.1, fun c hmem => ?_⟩
  rcases mem_append.1 hmem with hmem | hmem
  · exact all_eq_true.1 hs c hmem
  · exact hw.2 c hmem

/-- A number is written in one way. -/
theorem number_inj {m n : Nat} (h : toString m = toString n) : m = n := by
  have hread := congrArg (fun s => Nat.ofDigitChars 10 s.toList 0) h
  simpa only [Nat.toString_eq_repr, Nat.toList_repr, Nat.ofDigitChars_ten_toDigits] using hread

theorem isWord_number (n : Nat) : IsWord (toString n) := by
  rw [Nat.toString_eq_repr, IsWord, Over, Nat.toList_repr]
  refine ⟨Nat.toDigits_ne_nil, fun c hmem => ?_⟩
  have hd := Nat.isDigit_of_mem_toDigits (by decide) (by decide) hmem
  simp [isWordChar, Token.continuesIdent, Char.isAlphanum, hd]

theorem isWord_place (i : Nat) : IsWord (Naming.place i) := isWord_append (by decide) (isWord_number i)

theorem toList_place (i : Nat) : (Naming.place i).toList = '#' :: (toString i).toList := by
  rw [Naming.place, String.toList_append]
  rfl

theorem place_inj {i j : Nat} (h : Naming.place i = Naming.place j) : i = j :=
  number_inj ((String.append_right_inj "#").1 h)

theorem struct_inj {a b : StructId} (h : a.text = b.text) : a = b := by
  obtain ⟨a⟩ := a
  obtain ⟨b⟩ := b
  exact congrArg _ (number_inj ((String.append_right_inj "struct#").1 h))

theorem predicate_inj {p q : Predicate} (h : p.name = q.name) : p = q := by
  revert h
  cases p <;> cases q <;> decide

theorem isWord_struct (ty : StructId) : IsWord ty.text := isWord_append (by decide) (isWord_number _)

theorem isWord_predicate (p : Predicate) : IsWord p.name := by
  cases p <;> decide

theorem isWord_of_isIdent (h : Token.isIdent w = true) : IsWord w := by
  rw [Token.isIdent] at h
  split at h
  · cases h
  · rename_i c cs hcs
    rw [Bool.and_eq_true, all_eq_true] at h
    rw [IsWord, Over, hcs]
    refine ⟨cons_ne_nil _ _, fun d hd => ?_⟩
    rcases mem_cons.1 hd with rfl | hd
    · have hstart := h.1
      simp only [Token.startsIdent, Bool.or_eq_true] at hstart
      rcases hstart with ha | ha
      · simp [isWordChar, Token.continuesIdent, Char.isAlphanum, ha]
      · simp [isWordChar, Token.continuesIdent, of_decide_eq_true ha]
    · simp [isWordChar, h.2 d hd]

end Outline

open Outline

/-! ### Locations -/

/-- The parameters of an instance, with pointers and sets of any kind. -/
structure Args (V S : Type) where
  ptrs : List V
  sets : List S

/-- What is known of a location, with values and sets of any kind. -/
inductive Node (V S : Type) where
  | unknown
  | freed
  | member (set : S) (ty : StructId)
  | cell (ty : StructId) (fields : List V)
  | summary (pred : Predicate) (ty : StructId) (args : Args V S) (hole : Option (V × Args V S))

variable {V V' S S' T U : Type}

namespace Args

/-- Change the pointers and the sets. -/
def map (f : V → V') (g : S → S') (a : Args V S) : Args V' S' := ⟨a.ptrs.map f, a.sets.map g⟩

/-- All pointers and sets are words. -/
def Words (a : Args String String) : Prop := (∀ w ∈ a.ptrs, IsWord w) ∧ ∀ w ∈ a.sets, IsWord w

/-- How parameters are written. -/
def text (a : Args String String) : List Char :=
  '[' :: (commas [] a.ptrs ++ '|' :: (commas [] a.sets ++ [']']))

theorem text_append_inj {a b : Args String String} {r r' : List Char} (ha : a.Words) (hb : b.Words)
    (h : a.text ++ r = b.text ++ r') : a = b ∧ r = r' := by
  obtain ⟨ptrs, sets⟩ := a
  obtain ⟨ptrs', sets'⟩ := b
  simp only [text, cons_append, append_assoc, List.cons.injEq, true_and,
    nil_append] at h
  obtain ⟨rfl, hsets⟩ := commas_append_inj (by decide) ha.1 hb.1 (closes_cons (by decide) (by decide))
    (closes_cons (by decide) (by decide)) h
  obtain ⟨rfl, hrest⟩ := commas_append_inj (by decide) ha.2 hb.2 (closes_cons (by decide) (by decide))
    (closes_cons (by decide) (by decide)) (List.cons.inj hsets).2
  exact ⟨rfl, (List.cons.inj hrest).2⟩

end Args

/-- The parameters of an instance of a predicate. -/
def Params.args (p : Params) : Args Value SetVar := ⟨p.ptrs, p.sets⟩

namespace Node

/-- Change the values and the sets. -/
def map (f : V → V') (g : S → S') : Node V S → Node V' S'
  | .unknown => .unknown
  | .freed => .freed
  | .member set ty => .member (g set) ty
  | .cell ty fields => .cell ty (fields.map f)
  | .summary pred ty args hole =>
    .summary pred ty (args.map f g) (hole.map fun o => (f o.1, o.2.map f g))

/-- The values that are mentioned. -/
def values : Node V S → List V
  | .cell _ fields => fields
  | .summary _ _ args hole => args.ptrs ++ hole.toList.flatMap fun o => o.1 :: o.2.ptrs
  | _ => []

/-- The sets that are mentioned. -/
def sets : Node V S → List S
  | .member set _ => [set]
  | .summary _ _ args hole => args.sets ++ hole.toList.flatMap fun o => o.2.sets
  | _ => []

@[simp] theorem values_map (f : V → V') (g : S → S') (a : Node V S) :
    (a.map f g).values = a.values.map f := by
  obtain _ | _ | _ | _ | ⟨_, _, _, _ | _⟩ := a <;> simp [values, map, Args.map]

@[simp] theorem sets_map (f : V → V') (g : S → S') (a : Node V S) :
    (a.map f g).sets = a.sets.map g := by
  obtain _ | _ | _ | _ | ⟨_, _, _, _ | _⟩ := a <;> simp [sets, map, Args.map]

/-- All values and sets are words. -/
def Words (a : Node String String) : Prop := (∀ w ∈ a.values, IsWord w) ∧ ∀ w ∈ a.sets, IsWord w

/-- The word that the description of a location starts with. -/
def head : Node String String → String
  | .unknown => "opaque"
  | .freed => "freed"
  | .member .. => "member"
  | .cell ty _ => ty.text
  | .summary pred .. => pred.name

/-- How the end of a segment is written. -/
def holeText : Option (String × Args String String) → List Char
  | some (v, rest) => ' ' :: '~' :: '>' :: ' ' :: (v.toList ++ rest.text)
  | none => []

/-- The description of a location behind its first word. -/
def tail : Node String String → List Char
  | .unknown | .freed => []
  | .member set ty => ' ' :: (ty.text.toList ++ ' ' :: 'o' :: 'f' :: ' ' :: set.toList)
  | .cell _ fields => '\x7b' :: (commas [] fields ++ ['\x7d'])
  | .summary _ ty args hole => ':' :: (ty.text.toList ++ (args.text ++ holeText hole))

/-- How a location is described. -/
def text (a : Node String String) : List Char := a.head.toList ++ a.tail

theorem isWord_head (a : Node String String) : IsWord a.head := by
  rcases a with _ | _ | _ | _ | _
  · exact (by decide : IsWord "opaque")
  · exact (by decide : IsWord "freed")
  · exact (by decide : IsWord "member")
  · exact isWord_struct _
  · exact isWord_predicate _

theorem ends_tail (a : Node String String) (r : List Char) : Ends isWordChar (a.tail ++ ' ' :: r) := by
  rcases a with _ | _ | _ | _ | _ <;> exact ends_cons (by decide)

variable {o : Option (String × Args String String)} {r r' : List Char}

theorem holeText_append_inj {o' : Option (String × Args String String)}
    (ho : ∀ x ∈ o, IsWord x.1 ∧ x.2.Words) (ho' : ∀ x ∈ o', IsWord x.1 ∧ x.2.Words)
    (h : holeText o ++ ' ' :: '|' :: r = holeText o' ++ ' ' :: '|' :: r') : o = o' ∧ r = r' := by
  rcases o with _ | ⟨v, a⟩ <;> rcases o' with _ | ⟨v', a'⟩ <;>
    simp only [holeText, nil_append, cons_append, append_assoc, List.cons.injEq,
      true_and, false_and, Char.reduceEq] at h
  · exact ⟨rfl, h⟩
  · obtain ⟨rfl, hargs⟩ := append_inj (ho _ rfl).1 (ho' _ rfl).1 (ends_cons (by decide))
      (ends_cons (by decide)) h
    obtain ⟨rfl, hrest⟩ := Args.text_append_inj (ho _ rfl).2 (ho' _ rfl).2 hargs
    exact ⟨rfl, (List.cons.inj (List.cons.inj hrest).2).2⟩

theorem Words.args {pred : Predicate} {ty : StructId} {a : Args String String}
    (h : (summary pred ty a o).Words) : a.Words :=
  ⟨fun w hw => h.1 w (mem_append_left _ hw), fun w hw => h.2 w (mem_append_left _ hw)⟩

theorem Words.hole {pred : Predicate} {ty : StructId} {a : Args String String}
    (h : (summary pred ty a o).Words) : ∀ x ∈ o, IsWord x.1 ∧ x.2.Words := by
  rintro x rfl
  refine ⟨h.1 _ ?_, fun w hw => h.1 w ?_, fun w hw => h.2 w ?_⟩
  · simp [values]
  · simp [values, hw]
  · simp [sets, hw]

/-- A description tells where it ends, if a blank and a bar come next. -/
theorem text_append_inj {a b : Node String String} (ha : a.Words) (hb : b.Words)
    (h : a.text ++ ' ' :: '|' :: r = b.text ++ ' ' :: '|' :: r') : a = b ∧ r = r' := by
  rw [text, text, append_assoc, append_assoc] at h
  obtain ⟨hhead, htail⟩ := append_inj a.isWord_head b.isWord_head (a.ends_tail _) (b.ends_tail _) h
  -- The first word tells descriptions of different kinds apart, or the character behind it does.
  rcases a with _ | _ | ⟨set, ty⟩ | ⟨ty, fields⟩ | ⟨pred, ty, args, hole⟩ <;>
    rcases b with _ | _ | ⟨set', ty'⟩ | ⟨ty', fields'⟩ | ⟨pred', ty', args', hole'⟩ <;>
    simp only [head, String.reduceEq] at hhead <;>
    simp only [tail, nil_append, cons_append, append_assoc, List.cons.injEq, true_and,
      false_and, Char.reduceEq] at htail
  case unknown.unknown => exact ⟨rfl, htail⟩
  case freed.freed => exact ⟨rfl, htail⟩
  case member.member =>
    obtain ⟨hty, hset⟩ := append_inj (isWord_struct ty) (isWord_struct ty') (ends_cons (by decide))
      (ends_cons (by decide)) htail
    obtain rfl := struct_inj hty
    simp only [List.cons.injEq, true_and] at hset
    obtain ⟨rfl, hrest⟩ := append_inj (ha.2 _ (.head _)) (hb.2 _ (.head _)) (ends_cons (by decide))
      (ends_cons (by decide)) hset
    exact ⟨rfl, (List.cons.inj (List.cons.inj hrest).2).2⟩
  case cell.cell =>
    obtain rfl := struct_inj hhead
    obtain ⟨rfl, hrest⟩ := commas_append_inj (by decide) ha.1 hb.1 (closes_cons (by decide) (by decide))
      (closes_cons (by decide) (by decide)) htail
    simp only [List.cons.injEq, true_and] at hrest
    exact ⟨rfl, hrest⟩
  case summary.summary =>
    obtain rfl := predicate_inj hhead
    obtain ⟨hty, hargs⟩ := append_inj (isWord_struct ty) (isWord_struct ty') (ends_cons (by decide))
      (ends_cons (by decide)) htail
    obtain rfl := struct_inj hty
    obtain ⟨rfl, hhole⟩ := Args.text_append_inj ha.args hb.args hargs
    obtain ⟨rfl, rfl⟩ := holeText_append_inj ha.hole hb.hole hhole
    exact ⟨rfl, rfl⟩

/-! ### All locations -/

/-- The descriptions of locations, the first of which has a number. -/
def listText : Nat → List (Node String String) → List Char
  | _, [] => []
  | i, a :: l =>
    '|' :: ' ' :: ((Naming.place i).toList ++ ':' :: ' ' :: (a.text ++ ' ' :: listText (i + 1) l))

theorem listText_append_bar (i : Nat) (l : List (Node String String)) (r : List Char) :
    ∃ t, listText i l ++ '|' :: r = '|' :: t := by
  rcases l with _ | ⟨a, l⟩
  · exact ⟨r, rfl⟩
  · exact ⟨_, rfl⟩

/-- The descriptions end where no number of a location comes. -/
theorem listText_append_inj {i : Nat} {l l' : List (Node String String)} (hl : ∀ a ∈ l, a.Words)
    (hl' : ∀ a ∈ l', a.Words) (hr : '#' ∉ r.head?) (hr' : '#' ∉ r'.head?)
    (h : listText i l ++ '|' :: ' ' :: r = listText i l' ++ '|' :: ' ' :: r') : l = l' ∧ r = r' := by
  induction l generalizing i l' with
  | nil =>
    rcases l' with _ | ⟨a', l'⟩
    · simpa [listText] using h
    · simp only [listText, nil_append, cons_append, List.cons.injEq, true_and,
        toList_place] at h
      exact (hr (by rw [h]; rfl)).elim
  | cons a l ih =>
    rcases l' with _ | ⟨a', l'⟩
    · simp only [listText, nil_append, cons_append, List.cons.injEq, true_and,
        toList_place] at h
      exact (hr' (by rw [← h]; rfl)).elim
    · obtain ⟨t, ht⟩ := listText_append_bar (i + 1) l (' ' :: r)
      obtain ⟨t', ht'⟩ := listText_append_bar (i + 1) l' (' ' :: r')
      simp only [listText, cons_append, append_assoc, List.cons.injEq, true_and, ht, ht',
        append_cancel_left_eq] at h
      obtain ⟨rfl, rfl⟩ := text_append_inj (hl a (.head _)) (hl' a' (.head _)) h
      obtain ⟨rfl, rfl⟩ := ih (fun a ha => hl a (.tail _ ha)) (fun a ha => hl' a (.tail _ ha))
        (ht.trans ht'.symm)
      exact ⟨rfl, rfl⟩

end Node

/-! ### Constraints -/

/-- What is recorded about sets, with sets and locations of any kind. -/
inductive Constraint (S L : Type) where
  | subset (sub sup : S)
  | split (whole : S) (elem : L) (rest : S)
  | empty (set : S)
  deriving DecidableEq

namespace Constraint

variable {L L' : Type}

/-- Change the sets and the locations. -/
def map (f : S → S') (g : L → L') : Constraint S L → Constraint S' L'
  | .subset a b => .subset (f a) (f b)
  | .split w e r => .split (f w) (g e) (f r)
  | .empty v => .empty (f v)

/-- The sets that are mentioned. -/
def sets : Constraint S L → List S
  | .subset a b => [a, b]
  | .split w _ r => [w, r]
  | .empty v => [v]

/-- The locations that are mentioned. -/
def locs : Constraint S L → List L
  | .split _ e _ => [e]
  | _ => []

@[simp] theorem sets_map (f : S → S') (g : L → L') (c : Constraint S L) :
    (c.map f g).sets = c.sets.map f := by
  cases c <;> rfl

@[simp] theorem locs_map (f : S → S') (g : L → L') (c : Constraint S L) :
    (c.map f g).locs = c.locs.map g := by
  cases c <;> rfl

/-- The line for a constraint. -/
def text : Constraint String String → String
  | .subset a b => a ++ " <= " ++ b
  | .split w e r => w ++ " = \x7b" ++ e ++ "\x7d + " ++ r
  | .empty v => v ++ " = \x7b\x7d"

/-- All names are words, and no set is named like a location. -/
structure Words (c : Constraint String String) : Prop where
  sets : ∀ w ∈ c.sets, IsWord w
  locs : ∀ w ∈ c.locs, IsWord w
  first : ∀ w ∈ c.sets, '#' ∉ w.toList.head?

/-- The set that the line for a constraint starts with. -/
def head : Constraint S L → S
  | .subset a _ => a
  | .split w _ _ => w
  | .empty v => v

/-- The line for a constraint behind its first set. -/
def tail : Constraint String String → List Char
  | .subset _ b => ' ' :: '<' :: '=' :: ' ' :: b.toList
  | .split _ e r =>
    ' ' :: '=' :: ' ' :: '\x7b' :: (e.toList ++ '\x7d' :: ' ' :: '+' :: ' ' :: r.toList)
  | .empty _ => [' ', '=', ' ', '\x7b', '\x7d']

theorem toList_text (c : Constraint String String) : c.text.toList = c.head.toList ++ c.tail := by
  rcases c with ⟨_, _⟩ | ⟨_, _, _⟩ | _ <;> simp [text, head, tail]

theorem head_mem_sets (c : Constraint S L) : c.head ∈ c.sets := by
  rcases c with ⟨_, _⟩ | ⟨_, _, _⟩ | _ <;> exact .head _

theorem ends_tail (c : Constraint String String) : Ends isWordChar c.tail := by
  rcases c with ⟨_, _⟩ | ⟨_, _, _⟩ | _ <;> exact ends_cons (by decide)

variable {c d : Constraint String String}

/-- A line tells its constraint. -/
theorem text_inj (hc : c.Words) (hd : d.Words) (h : c.text = d.text) : c = d := by
  rw [← String.toList_inj, toList_text, toList_text] at h
  obtain ⟨hhead, htail⟩ := append_inj (hc.sets _ c.head_mem_sets) (hd.sets _ d.head_mem_sets)
    c.ends_tail d.ends_tail h
  rcases c with ⟨a, b⟩ | ⟨w, e, r⟩ | v <;> rcases d with ⟨a', b'⟩ | ⟨w', e', r'⟩ | v' <;>
    simp only [tail, List.cons.injEq, true_and, false_and, Char.reduceEq, String.toList_inj] at htail <;>
    simp only [head] at hhead <;> subst hhead
  case subset.subset => rw [htail]
  case split.split =>
    obtain ⟨rfl, hrest⟩ := append_inj (hc.locs _ (.head _)) (hd.locs _ (.head _))
      (ends_cons (by decide)) (ends_cons (by decide)) htail
    simp only [List.cons.injEq, true_and, String.toList_inj] at hrest
    rw [hrest]
  case split.empty =>
    exact ((closes_cons (by decide) (by decide)).ne_append (hc.locs _ (.head _)) htail.symm).elim
  case empty.split =>
    exact ((closes_cons (by decide) (by decide)).ne_append (hd.locs _ (.head _)) htail).elim
  case empty.empty => rfl

theorem Words.over (hc : c.Words) : Over (· ≠ ',') c.text := by
  have hword {w : String} (hw : IsWord w) : ',' ∉ w.toList :=
    fun hmem => absurd (hw.2 _ hmem) (by decide)
  have hsets : ∀ w ∈ c.sets, ',' ∉ w.toList := fun w hw => hword (hc.sets w hw)
  have hlocs : ∀ w ∈ c.locs, ',' ∉ w.toList := fun w hw => hword (hc.locs w hw)
  have htext : ',' ∉ c.text.toList := by
    rcases c with ⟨a, b⟩ | ⟨w, e, r⟩ | v <;> simp_all [text, Constraint.sets, Constraint.locs]
  refine ⟨?_, fun d hd => decide_eq_true fun he => htext (he ▸ hd)⟩
  rw [toList_text]
  exact append_ne_nil_of_left_ne_nil (hc.sets _ c.head_mem_sets).1 _

theorem Words.head?_text (hc : c.Words) : '#' ∉ c.text.toList.head? := by
  rw [toList_text, head?_append_of_ne_nil _ (hc.sets _ c.head_mem_sets).1]
  exact hc.first _ c.head_mem_sets

end Constraint

namespace SetStore

/-- What a store records, about representatives. -/
def constraints (s : SetStore) : List (Constraint SetVar Loc) :=
  s.subsets.map (fun p => .subset (s.resolve p.1) (s.resolve p.2)) ++
    s.splits.map (fun p => .split (s.resolve p.whole) p.elem (s.resolve p.rest)) ++
    s.empties.map fun v => .empty (s.resolve v)

theorem mem_constraints {s : SetStore} {c : Constraint SetVar Loc} : c ∈ s.constraints ↔
    (∃ p ∈ s.subsets, .subset (s.resolve p.1) (s.resolve p.2) = c) ∨
      (∃ p ∈ s.splits, .split (s.resolve p.whole) p.elem (s.resolve p.rest) = c) ∨
      ∃ v ∈ s.empties, .empty (s.resolve v) = c := by
  simp only [constraints, mem_append, mem_map, or_assoc]

/-- The constraints that are written are those of which all sets and locations have names. -/
theorem mem_render {s : SetStore} {setName : SetVar → Option String} {locName : Loc → Option String}
    {line : String} : line ∈ s.render setName locName ↔ ∃ c ∈ s.constraints,
      ((∀ v ∈ c.sets, (setName v).isSome) ∧ ∀ l ∈ c.locs, (locName l).isSome) ∧
        (c.map (fun v => (setName v).getD "") fun l => (locName l).getD "").text = line := by
  have hsome {o : Option String} {f : String → Option String} :
      (o >>= f) = some line ↔ o.isSome ∧ f (o.getD "") = some line := by
    rcases o with _ | w <;> simp
  simp only [render, Sorted.mem_ofList, mem_append, mem_filterMap, hsome, pure,
    Option.some.injEq, or_assoc, mem_constraints, or_and_right, exists_or]
  refine or_congr ?_ (or_congr ?_ ?_)
  · simp [Constraint.sets, Constraint.locs, Constraint.map, Constraint.text, and_assoc]
  · simp [Constraint.sets, Constraint.locs, Constraint.map, Constraint.text, and_assoc, and_left_comm]
  · simp [Constraint.sets, Constraint.locs, Constraint.map, Constraint.text]

end SetStore

namespace Sorted

variable {α : Type} [LT α] [DecidableLT α] [DecidableEq α] [IsStrictTotalOrder α (· < ·)]

theorem pairwise_insert {a : α} {l : List α} (h : l.Pairwise (· < ·)) :
    (insert a l).Pairwise (· < ·) := by
  induction l with
  | nil => simp [insert]
  | cons b l ih =>
    obtain ⟨hb, hl⟩ := pairwise_cons.1 h
    rw [insert]
    split
    · rename_i hab
      refine pairwise_cons.2 ⟨fun c hc => ?_, h⟩
      rcases mem_cons.1 hc with rfl | hc
      · exact hab
      · exact IsTrans.trans _ _ _ hab (hb c hc)
    · rename_i hab
      split
      · exact h
      · rename_i hne
        refine pairwise_cons.2 ⟨fun c hc => ?_, ih hl⟩
        rcases mem_insert.1 hc with rfl | hc
        · rcases trichotomous_of (· < ·) c b with h | h | h
          · exact absurd h hab
          · exact absurd h hne
          · exact h
        · exact hb c hc

theorem pairwise_ofList (l : List α) : (ofList l).Pairwise (· < ·) := by
  induction l with
  | nil => exact .nil
  | cons a l ih => exact pairwise_insert ih

/-- A set is one list. -/
theorem ofList_eq_iff {l l' : List α} : ofList l = ofList l' ↔ ∀ a, a ∈ ofList l ↔ a ∈ ofList l' :=
  ⟨fun h _ => h ▸ Iff.rfl, (pairwise_ofList l).eq_of_mem_iff (pairwise_ofList l')⟩

end Sorted

/-! ### The parts of a shape -/

/-- The state of a location with the parts that a shape tells. -/
def Arena.Slot.node : Arena.Slot Fact → Node Value SetVar
  | .vacant => .unknown
  | .tombstone => .freed
  | .occupied (.member set ty) => .member set ty
  | .occupied (.cell c) => .cell c.ty c.fields
  | .occupied (.summary s) =>
    .summary s.pred s.ty s.params.args (s.hole.map fun o => (o.value, o.params.args))

namespace Heap

variable {h h₁ h₂ : Heap} {n : Naming}

/-- The name of a set in a shape. -/
def setName (h : Heap) (n : Naming) (v : SetVar) : String := (h.setName? n v).getD ""

/-- What a shape tells of the locations, in order. -/
def nodes (h : Heap) (roots : List Value) : List (Node String String) :=
  let n := h.naming roots
  n.locs.map fun loc => (h.slot loc).node.map n.value (h.setName n)

/-- The lines of a shape. -/
def lines (h : Heap) (roots : List Value) : List String :=
  let n := h.naming roots
  h.sets.render (h.setName? n) n.loc?

/-- The values of a shape. -/
def valuesText (l : List (String × String)) : List Char :=
  l.flatMap fun e => e.1.toList ++ '=' :: (e.2.toList ++ [' '])

theorem toList_commas (l : List String) : (",".intercalate l).toList = commas [] l :=
  toList_intercalate "" l

theorem toList_paramsShape (p : Params) :
    (h.paramsShape n p).toList = (p.args.map n.value (h.setName n)).text := by
  have hname : (fun v => (h.setName? n v).getD "") = h.setName n := rfl
  simp [-String.toList_intercalate, paramsShape, Args.text, Args.map, Params.args, toList_commas, hname]

theorem toList_slotShape (s : Slot) :
    (h.slotShape n s).toList = (s.node.map n.value (h.setName n)).text := by
  obtain _ | ⟨_ | ⟨_, _, _, _ | o⟩ | _⟩ | _ := s <;>
    simp [-String.toList_intercalate, slotShape, Arena.Slot.node, Node.map, Node.text, Node.head,
      Node.tail, Node.holeText, toList_paramsShape, toList_commas, setName]

theorem toList_slots (locs : List Loc) (i : Nat) :
    (String.join ((locs.zipIdx i).map fun (loc, i) =>
      "| " ++ Naming.place i ++ ": " ++ h.slotShape n (h.slot loc) ++ " ")).toList =
      Node.listText i (locs.map fun loc => (h.slot loc).node.map n.value (h.setName n)) := by
  rw [String.toList_join]
  induction locs generalizing i with
  | nil => rfl
  | cons loc locs ih => simp [zipIdx_cons, Node.listText, toList_slotShape, ih]

theorem toList_shape (roots : List (String × Value)) : (h.shape roots).toList =
    valuesText (roots.map fun e => (e.1, (h.naming (roots.map Prod.snd)).value e.2)) ++
      (Node.listText 0 (h.nodes (roots.map Prod.snd)) ++
        '|' :: ' ' :: commas [' '] (h.lines (roots.map Prod.snd))) := by
  have hlines (l : List String) : (", ".intercalate l).toList = commas [' '] l :=
    toList_intercalate " " l
  have hvalues {n : Naming} :
      (String.join (roots.map fun e => e.1 ++ "=" ++ n.value e.2 ++ " ")).toList =
        valuesText (roots.map fun e => (e.1, n.value e.2)) := by
    rw [String.toList_join, valuesText, flatMap_map, flatMap_map]
    simp
  simp only [shape, String.toList_append, hvalues, toList_slots, hlines, append_assoc, nodes,
    lines]
  rfl

/-- The values end where the names of the variables do. -/
theorem valuesText_append_inj {l l' : List (String × String)} {r r' : List Char}
    (hnames : l.map Prod.fst = l'.map Prod.fst) (hl : ∀ e ∈ l, IsWord e.2) (hl' : ∀ e ∈ l', IsWord e.2)
    (h : valuesText l ++ r = valuesText l' ++ r') : l = l' ∧ r = r' := by
  induction l generalizing l' with
  | nil =>
    rw [map_nil, eq_comm, map_eq_nil_iff] at hnames
    subst hnames
    exact ⟨rfl, h⟩
  | cons e l ih =>
    rcases l' with _ | ⟨e', l'⟩
    · cases hnames
    · obtain ⟨x, w⟩ := e
      obtain ⟨x', w'⟩ := e'
      obtain ⟨rfl, hrest⟩ := List.cons.inj hnames
      simp only [valuesText, flatMap_cons, append_assoc, cons_append,
        append_cancel_left_eq, List.cons.injEq, true_and] at h
      obtain ⟨rfl, htail⟩ := append_inj (hl _ (.head _)) (hl' _ (.head _)) (ends_cons (by decide))
        (ends_cons (by decide)) h
      obtain ⟨rfl, rfl⟩ := ih hrest (fun e he => hl e (.tail _ he)) (fun e he => hl' e (.tail _ he))
        (List.cons.inj htail).2
      exact ⟨rfl, rfl⟩

/-- All names in the shape of a heap are words. -/
structure Legible (h : Heap) (roots : List Value) : Prop where
  values : ∀ v ∈ roots, IsWord ((h.naming roots).value v)
  nodes : ∀ a ∈ h.nodes roots, a.Words
  lines : ∀ line ∈ h.lines roots, Over (· ≠ ',') line ∧ '#' ∉ line.toList.head?

/-- The lines do not start like the description of a location. -/
theorem Legible.head?_commas {roots : List Value} (hl : h.Legible roots) :
    '#' ∉ (commas [' '] (h.lines roots)).head? := by
  rcases hlines : h.lines roots with _ | ⟨line, lines⟩
  · exact fun hmem => by cases hmem
  · have hline := hl.lines line (hlines ▸ .head _)
    rw [commas, head?_append_of_ne_nil _ hline.1.1]
    exact hline.2

theorem map_value_eq_zip (roots : List (String × Value)) (f : Value → String) :
    (roots.map fun e => (e.1, f e.2)) = (roots.map Prod.fst).zip ((roots.map Prod.snd).map f) := by
  rw [map_map, zip_map']
  rfl

/-- Two heaps have the same shape if and only if the parts of their shapes are the same. -/
theorem shape_eq_iff {roots₁ roots₂ : List (String × Value)}
    (hnames : roots₁.map Prod.fst = roots₂.map Prod.fst)
    (hl₁ : h₁.Legible (roots₁.map Prod.snd)) (hl₂ : h₂.Legible (roots₂.map Prod.snd)) :
    h₁.shape roots₁ = h₂.shape roots₂ ↔
      (roots₁.map Prod.snd).map (h₁.naming (roots₁.map Prod.snd)).value =
          (roots₂.map Prod.snd).map (h₂.naming (roots₂.map Prod.snd)).value ∧
        h₁.nodes (roots₁.map Prod.snd) = h₂.nodes (roots₂.map Prod.snd) ∧
        h₁.lines (roots₁.map Prod.snd) = h₂.lines (roots₂.map Prod.snd) := by
  rw [← String.toList_inj, toList_shape, toList_shape]
  constructor
  · intro h
    have hwords {h : Heap} {roots : List (String × Value)} (hl : h.Legible (roots.map Prod.snd)) :
        ∀ e ∈ roots.map fun e => (e.1, (h.naming (roots.map Prod.snd)).value e.2), IsWord e.2 := by
      intro e he
      obtain ⟨e, hmem, rfl⟩ := mem_map.1 he
      exact hl.values _ (mem_map_of_mem hmem)
    obtain ⟨hvalues, hrest⟩ := valuesText_append_inj (by simpa [Function.comp_def] using hnames)
      (hwords hl₁) (hwords hl₂) h
    obtain ⟨hnodes, hlines⟩ := Node.listText_append_inj hl₁.nodes hl₂.nodes hl₁.head?_commas
      hl₂.head?_commas hrest
    refine ⟨by simpa [Function.comp_def] using congrArg (List.map Prod.snd) hvalues, hnodes, ?_⟩
    refine (commas_append_inj (p := (· ≠ ',')) (by decide) (fun l hl => (hl₁.lines l hl).1)
      (fun l hl => (hl₂.lines l hl).1) closes_nil closes_nil (congrArg (· ++ []) hlines)).1
  · rintro ⟨hvalues, hnodes, hlines⟩
    rw [map_value_eq_zip, map_value_eq_zip, hnames, hvalues, hnodes, hlines]

end Heap

end HeapShape
