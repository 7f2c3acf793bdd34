import HeapShape.Proofs.Lexemes
import HeapShape.Proofs.Outcomes

/-!
# Tokens cover their text

A text that can be scanned is made up of the texts of its tokens, in their order, with nothing but
blank characters and comments in between, and every token stands at the position that is counted
from all the characters in front of it. The other way round, a text that is made up so is scanned
into these tokens.

* `Token.Separates`: blank characters and comments, any number of them;
* `Span.after`: a position by counting line breaks and columns, and not step by step;
* `Tokens.Cuts`: a text is cut into tokens, the last one of which is the end of the input;
* `Tokens.scan_eq_ok_iff_cuts`: scanning finds the tokens that a text is cut into.
-/

namespace HeapShape

open List

/-! ### Positions -/

namespace Span

/-- The position after some characters, by counting: as many lines further as there are line
    breaks, in the column that the characters behind the last one lead to. Both are kept in 32
    bits. -/
def after (origin : Span) (before : List Char) : Span where
  line := .ofNat (origin.line.toNat + before.count '\n')
  col := .ofNat (if '\n' ∈ before then 1 + (before.reverse.takeWhile (· ≠ '\n')).length
    else origin.col.toNat + before.length)

variable {origin : Span}

theorem after_nil : origin.after [] = origin := by
  simp [after]

theorem after_concat (before : List Char) (c : Char) :
    origin.after (before ++ [c]) = (origin.after before).step c := by
  by_cases hc : c = '\n'
  · subst hc
    simp [after, step, ← Nat.add_assoc]
  · by_cases hbefore : '\n' ∈ before
    · simp [after, step, hc, hbefore, ← Nat.add_assoc]
    · simp [after, step, hc, Ne.symm hc, hbefore, ← Nat.add_assoc]

/-- Step by step the same position is reached. -/
theorem advance_after (before cs : List Char) :
    (origin.after before).advance cs = origin.after (before ++ cs) := by
  induction cs generalizing before with
  | nil => rw [advance_nil, append_nil]
  | cons c cs ih => rw [advance_cons, ← after_concat, ih, append_assoc, singleton_append]

end Span

/-! ### Cutting a text -/

namespace Token

/-- Blank characters and comments separate tokens, in front of a rest. -/
inductive Separates (rest : List Char) : List Char → Prop where
  | nil : Separates rest []
  | cons {gap more : List Char} (h : Gap (more ++ rest) gap) (hmore : Separates rest more) :
      Separates rest (gap ++ more)

end Token

namespace Tokens

/-- A text, which stands behind the characters `before`, is cut into tokens. -/
inductive Cuts (origin : Span) : List Char → List Char → List Token → Prop where
  /-- No token is left. -/
  | finish {before gap : List Char} (hgap : Token.Separates [] gap) :
      Cuts origin before gap [⟨.eof, origin.after (before ++ gap)⟩]
  /-- A token comes next. -/
  | token {before gap text rest : List Char} {kind : Token.Kind} {ts : List Token}
      (hgap : Token.Separates (text ++ rest) gap) (htext : Token.Spells rest text kind)
      (hrest : Cuts origin (before ++ gap ++ text) rest ts) :
      Cuts origin before (gap ++ text ++ rest) (⟨kind, origin.after (before ++ gap)⟩ :: ts)

variable {origin : Span} {before gap text rest : List Char} {kind : Token.Kind} {ts : List Token}

/-- A gap in front changes nothing. -/
theorem Cuts.gap_append (hgap : Token.Gap rest gap) (h : Cuts origin (before ++ gap) rest ts) :
    Cuts origin before (gap ++ rest) ts := by
  cases h with
  | @finish _ more hmore =>
    rw [append_assoc]
    exact .finish (.cons (by rwa [append_nil]) hmore)
  | @token _ more text rest kind ts hmore htext hrest =>
    rw [append_assoc] at hgap ⊢
    rw [append_assoc before] at hrest ⊢
    rw [← append_assoc, ← append_assoc]
    exact .token (.cons hgap hmore) htext hrest

/-- A token may stand in front. -/
theorem Cuts.token_append (htext : Token.Spells rest text kind)
    (h : Cuts origin (before ++ text) rest ts) :
    Cuts origin before (text ++ rest) (⟨kind, origin.after before⟩ :: ts) := by
  have htoken : Cuts origin before ([] ++ text ++ rest) (⟨kind, origin.after (before ++ [])⟩ :: ts) :=
    .token .nil htext (by rwa [append_nil])
  rwa [append_nil] at htoken

/-! ### Scanning -/

/-- What one lexeme adds to the tokens behind it. -/
theorem scanFrom_cons_append {c : Char} {cs : List Char} {kind : Option Token.Kind}
    (h : Token.lexeme c (cs ++ rest) = .ok ⟨kind, cs.length⟩) :
    scanFrom origin (c :: cs ++ rest) =
      (scanFrom (origin.advance (c :: cs)) rest).map (·.push kind origin) := by
  rw [cons_append, scanFrom, h]
  simp only [take_left, drop_left]
  cases scanFrom (origin.advance (c :: cs)) rest <;> rfl

theorem scanFrom_gap_append (h : Token.Gap rest gap) :
    scanFrom origin (gap ++ rest) = scanFrom (origin.advance gap) rest := by
  obtain ⟨c, cs, rfl, hlex⟩ := h.lexeme
  rw [scanFrom_cons_append hlex]
  exact congrFun Except.map_id _

theorem scanFrom_token_append (h : Token.Spells rest text kind) :
    scanFrom origin (text ++ rest) =
      (scanFrom (origin.advance text) rest).map (·.push (some kind) origin) := by
  obtain ⟨c, cs, rfl, hlex⟩ := h.lexeme
  exact scanFrom_cons_append hlex

theorem scanFrom_separates_append (h : Token.Separates rest gap) :
    scanFrom origin (gap ++ rest) = scanFrom (origin.advance gap) rest := by
  induction h generalizing origin with
  | nil => rfl
  | cons hgap _ ih => rw [append_assoc, scanFrom_gap_append hgap, ih, ← Span.advance_append]

/-- The first lexeme of a text that can be scanned. -/
theorem exists_lexeme {c : Char} {cs : List Char} {ts : Tokens} (h : scanFrom origin (c :: cs) = .ok ts) :
    ∃ text rest, c :: cs = text ++ rest ∧ text ≠ [] ∧
      (Token.Gap rest text ∨ ∃ kind, Token.Spells rest text kind) := by
  rw [scanFrom] at h
  split at h
  · cases h
  · rename_i lex hlex
    obtain ⟨text, rest, hsplit, hlen, hkind⟩ := Token.of_lexeme hlex
    refine ⟨text, rest, hsplit, ne_nil_of_length_eq_add_one hlen, ?_⟩
    exact hkind.imp And.right (Exists.imp fun _ => And.right)

/-! ### Kinds of tokens -/

/-- A text is scanned into tokens of some kinds, wherever it stands. -/
def Scans (text : List Char) (kinds : List Token.Kind) : Prop :=
  ∀ origin, ∃ ts, scanFrom origin text = .ok ts ∧ ts.list.map Token.kind = kinds

namespace Scans

variable {kinds : List Token.Kind}

theorem nil : Scans [] [] := fun origin => ⟨⟨[], origin⟩, by rw [scanFrom], rfl⟩

theorem of_gap (h : Token.Gap rest gap) (hrest : Scans rest kinds) : Scans (gap ++ rest) kinds := by
  intro origin
  rw [scanFrom_gap_append h]
  exact hrest _

theorem of_token (h : Token.Spells rest text kind) (hrest : Scans rest kinds) :
    Scans (text ++ rest) (kind :: kinds) := by
  intro origin
  obtain ⟨ts, hts, hkinds⟩ := hrest (origin.advance text)
  refine ⟨ts.push (some kind) origin, ?_, congrArg (kind :: ·) hkinds⟩
  rw [scanFrom_token_append h, hts]
  rfl

end Scans

/-! ### Tokens and positions -/

theorem cuts_of_scanFrom {ts : Tokens} (h : scanFrom (origin.after before) text = .ok ts) :
    Cuts origin before text ts.all := by
  -- Each lexeme takes at least one character.
  induction hn : text.length using Nat.strongRecOn generalizing text before ts with
  | ind n ih =>
    cases text with
    | nil =>
      rw [scanFrom] at h
      cases h
      have hfinish : Cuts origin before [] [⟨.eof, origin.after (before ++ [])⟩] := .finish .nil
      rwa [append_nil] at hfinish
    | cons c cs =>
      obtain ⟨text, rest, hsplit, hne, hkind⟩ := exists_lexeme h
      have hlt : rest.length < n := by
        rw [← hn, hsplit, length_append]
        exact Nat.lt_add_of_pos_left (length_pos_iff.2 hne)
      rw [hsplit] at h ⊢
      rcases hkind with hgap | ⟨kind, hspells⟩
      · rw [scanFrom_gap_append hgap, Span.advance_after] at h
        exact (ih _ hlt h rfl).gap_append hgap
      · rw [scanFrom_token_append hspells, Span.advance_after] at h
        obtain ⟨ts', hts', rfl⟩ := ok_of_map h
        exact (ih _ hlt hts' rfl).token_append hspells

theorem Cuts.scanFrom (h : Cuts origin before text ts) :
    ∃ ts' : Tokens, ts = ts'.all ∧ Tokens.scanFrom (origin.after before) text = .ok ts' := by
  induction h with
  | @finish before gap hgap =>
    refine ⟨⟨[], origin.after (before ++ gap)⟩, rfl, ?_⟩
    rw [← append_nil gap, scanFrom_separates_append hgap, Span.advance_after, append_nil,
      Tokens.scanFrom]
  | @token before gap text rest kind ts hgap htext hrest ih =>
    obtain ⟨ts', rfl, hscan⟩ := ih
    refine ⟨ts'.push (some kind) (origin.after (before ++ gap)), rfl, ?_⟩
    rw [append_assoc, scanFrom_separates_append hgap, Span.advance_after,
      scanFrom_token_append htext, Span.advance_after, hscan]
    rfl

theorem all_injective : Function.Injective all := by
  intro ts ts' h
  obtain ⟨hlist, hlast⟩ := append_inj' h rfl
  obtain ⟨list, finish⟩ := ts
  obtain ⟨list', finish'⟩ := ts'
  cases hlist
  cases hlast
  rfl

/-- Scanning finds the tokens that a text is cut into: their texts make up the whole text, only blank
    characters and comments separate them, each text spells its token, and each token stands where
    the characters in front of it lead to. -/
theorem scan_eq_ok_iff_cuts (origin : Span) (source : String) (ts : Tokens) :
    scan origin source = .ok ts ↔ Cuts origin [] source.toList ts.all := by
  rw [scan]
  constructor
  · intro h
    exact cuts_of_scanFrom (by rwa [Span.after_nil])
  · intro h
    obtain ⟨ts', hall, hscan⟩ := h.scanFrom
    rw [Span.after_nil] at hscan
    rw [hscan, all_injective hall]

end Tokens

end HeapShape
