import HeapShape.Token.Scan
import Mathlib.Data.List.Infix

/-!
# What tokens and gaps are

Which characters make up a token of each kind, and what may stand between two tokens. Both depend
on what follows: an identifier goes on as long as it can, and a comment on a line up to its end.

* `Token.Spells`: a text is a token of some kind, in front of the rest of a text;
* `Token.Gap`: a text is a blank character or a comment that ends, in front of a rest;
* `Token.Gap.lexeme`, `Token.Spells.lexeme`, `Token.of_lexeme`: the lexeme that is found at a place is
  the gap or the token there.
-/

namespace HeapShape.Token

open List

/-! ### Parts of a text -/

section

variable {p : Char → Bool} {cs rest : List Char}

theorem takeWhile_append_of_head? (hcs : ∀ d ∈ cs, p d = true) (hrest : ∀ d ∈ rest.head?, p d = false) :
    (cs ++ rest).takeWhile p = cs := by
  rw [takeWhile_append_of_pos hcs]
  cases rest with
  | nil => rw [takeWhile_nil, append_nil]
  | cons d rest => rw [takeWhile_cons_of_neg (by simp [hrest d rfl]), append_nil]

/-- A text is its longest first part with a property, and a rest that does not go on with it. -/
theorem exists_takeWhile_append (p : Char → Bool) (cs : List Char) :
    ∃ rest, cs = cs.takeWhile p ++ rest ∧ (∀ d ∈ cs.takeWhile p, p d = true) ∧
      ∀ d ∈ rest.head?, p d = false := by
  refine ⟨cs.dropWhile p, takeWhile_append_dropWhile.symm, all_eq_true.1 all_takeWhile,
    fun d hd => ?_⟩
  have h := head?_dropWhile_not p cs
  rw [Option.mem_def.1 hd] at h
  exact h

end

/-- A text is an identifier. -/
def IsIdent : List Char → Prop
  | [] => False
  | c :: cs => (c.isAlpha || c = '_') = true ∧ ∀ d ∈ cs, (d.isAlphanum || d = '_') = true

instance : DecidablePred IsIdent
  | [] => isFalse id
  | _ :: cs => @instDecidableAnd _ _ _ (decidableBAll _ cs)

/-- What is written between quotes, and what it stands for. -/
inductive Escapes : List Char → List Char → Prop where
  | nil : Escapes [] []
  | newline {cs text : List Char} (h : Escapes cs text) : Escapes ('\\' :: 'n' :: cs) ('\n' :: text)
  | tab {cs text : List Char} (h : Escapes cs text) : Escapes ('\\' :: 't' :: cs) ('\t' :: text)
  | other {c : Char} {cs text : List Char} (hnewline : c ≠ 'n') (htab : c ≠ 't') (h : Escapes cs text) :
      Escapes ('\\' :: c :: cs) (c :: text)
  | plain {c : Char} {cs text : List Char} (hquote : c ≠ '"') (hslash : c ≠ '\\') (hline : c ≠ '\n')
      (h : Escapes cs text) : Escapes (c :: cs) (c :: text)

/-- A comment starts a text. -/
def OpensComment (cs : List Char) : Prop := ['/', '/'] <+: cs ∨ ['/', '*'] <+: cs

/-- A text is a token of some kind, in front of a rest. -/
inductive Spells (rest : List Char) : List Char → Kind → Prop where
  /-- An identifier, which the rest does not continue. -/
  | ident {text : List Char} (h : IsIdent text)
      (hrest : ∀ d ∈ rest.head?, (d.isAlphanum || d = '_') = false) :
      Spells rest text (.ident (String.ofList text))
  /-- The digits of a number, which neither a digit nor a letter follows. -/
  | number {digits : List Char} (hne : digits ≠ []) (h : ∀ d ∈ digits, d.isDigit = true)
      (hrest : ∀ d ∈ rest.head?, d.isAlphanum = false)
      (hbound : Nat.ofDigitChars 10 digits 0 < Nat.pow 2 63) :
      Spells rest digits (.number (Nat.ofDigitChars 10 digits 0))
  /-- A text in quotes. -/
  | quoted {body text : List Char} (h : Escapes body text) :
      Spells rest ('"' :: body ++ ['"']) (.quoted (String.ofList text))
  /-- The dollar sign. -/
  | dollar : Spells rest ['$'] .dollar
  /-- The longest punctuation mark that stands there, where no comment does. -/
  | punct {mark : String} (h : mark ∈ punctuation)
      (hlongest : ∀ m ∈ punctuation, m.toList <+: mark.toList ++ rest → m.length ≤ mark.length)
      (hcomment : ¬ OpensComment (mark.toList ++ rest)) : Spells rest mark.toList (.punct mark)

/-- A text separates tokens, in front of a rest. -/
inductive Gap (rest : List Char) : List Char → Prop where
  /-- A blank character. -/
  | blank {c : Char} (h : Text.isBlank c = true) : Gap rest [c]
  /-- A comment up to the end of its line. -/
  | line {body : List Char} (h : '\n' ∉ body) (hrest : ∀ d ∈ rest.head?, d = '\n') :
      Gap rest ('/' :: '/' :: body)
  /-- A comment up to its first end mark. -/
  | block {body : List Char} (h : ¬ ['*', '/'] <:+: body ++ ['*']) :
      Gap rest ('/' :: '*' :: body ++ ['*', '/'])

/-! ### Comments, numbers, quoted texts and marks -/

theorem commentLength_append {body : List Char} (h : ¬ ['*', '/'] <:+: body ++ ['*']) (rest : List Char) :
    commentLength (body ++ '*' :: '/' :: rest) = some (body.length + 2) := by
  induction body with
  | nil => rfl
  | cons c body ih =>
    have hbody := ih fun hin => h (hin.trans (suffix_cons c _).isInfix)
    rw [cons_append, commentLength, hbody]
    · rfl
    · -- The comment does not end with its first character.
      rintro cs rfl hcs
      refine h ⟨[], (body ++ ['*']).tail, ?_⟩
      cases body with
      | nil => cases hcs
      | cons d body =>
        obtain ⟨rfl, -⟩ := List.cons.inj hcs
        rfl

variable {cs : List Char} {n : Nat} {c : Char}

theorem commentLength_eq_some (h : commentLength cs = some n) :
    ∃ body rest, cs = body ++ '*' :: '/' :: rest ∧ n = body.length + 2 ∧
      ¬ ['*', '/'] <:+: body ++ ['*'] := by
  induction cs using commentLength.induct generalizing n with
  | case1 rest =>
    cases h
    refine ⟨[], rest, rfl, rfl, fun hin => ?_⟩
    have := hin.length_le
    simp at this
  | case2 c cs hopen ih =>
    rw [commentLength] at h
    · obtain ⟨m, hm, rfl⟩ := Option.map_eq_some_iff.1 h
      obtain ⟨body, rest, rfl, rfl, hbody⟩ := ih hm
      refine ⟨c :: body, rest, rfl, rfl, fun hin => ?_⟩
      rcases infix_cons_iff.1 hin with hpre | hin
      · obtain ⟨tail, htail⟩ := hpre
        obtain ⟨hc, hbody'⟩ := List.cons.inj htail
        cases body with
        | nil => cases hbody'
        | cons d body =>
          obtain ⟨hd, -⟩ := List.cons.inj hbody'
          exact hopen (body ++ '*' :: '/' :: rest) hc.symm (by rw [hd]; rfl)
      · exact hbody hin
    · exact hopen
  | case3 => cases h

/-- A backslash and a character stand for what the character is resolved to. -/
theorem Escapes.escape (c : Char) {text : List Char} (h : Escapes cs text) :
    Escapes ('\\' :: c :: cs) (unescape c :: text) := by
  by_cases hnewline : c = 'n'
  · subst hnewline
    exact .newline h
  by_cases htab : c = 't'
  · subst htab
    exact .tab h
  rw [unescape, if_neg hnewline, if_neg htab]
  exact .other hnewline htab h

theorem quotedText_append {body text : List Char} (h : Escapes body text) (rest : List Char) :
    quotedText (body ++ '"' :: rest) = some (text, body.length + 1) := by
  induction h with
  | nil => rfl
  | newline h ih | tab h ih => rw [cons_append, cons_append, quotedText, ih]; rfl
  | other hnewline htab h ih =>
    rw [cons_append, cons_append, quotedText, ih, unescape, if_neg hnewline, if_neg htab]
    rfl
  | plain hquote hslash hline h ih =>
    rw [cons_append, quotedText, ih, Option.map_some]
    · rfl
    · exact hquote
    · exact hline
    · exact fun _ _ hc _ => hslash hc

theorem quotedText_eq_some {text : List Char} (h : quotedText cs = some (text, n)) :
    ∃ body rest, cs = body ++ '"' :: rest ∧ n = body.length + 1 ∧ Escapes body text := by
  induction cs using quotedText.induct generalizing text n with
  | case1 rest =>
    cases h
    exact ⟨[], rest, rfl, rfl, .nil⟩
  | case2 => cases h
  | case3 c cs ih =>
    rw [quotedText] at h
    obtain ⟨r, hr, heq⟩ := Option.map_eq_some_iff.1 h
    obtain ⟨body, rest, rfl, hn, hbody⟩ := ih hr
    cases heq
    exact ⟨'\\' :: c :: body, rest, rfl, by rw [hn]; rfl, .escape c hbody⟩
  | case4 c cs hquote hline hslash ih =>
    rw [quotedText] at h
    · obtain ⟨r, hr, heq⟩ := Option.map_eq_some_iff.1 h
      obtain ⟨body, rest, rfl, hn, hbody⟩ := ih hr
      cases heq
      refine ⟨c :: body, rest, rfl, by rw [hn]; rfl, .plain hquote (fun hc => ?_) hline hbody⟩
      -- A backslash would take the next character with it, and there is one.
      cases body with
      | nil => exact hslash _ _ hc rfl
      | cons d body => exact hslash _ _ hc rfl
    · exact hquote
    · exact hline
    · exact hslash
  | case5 => cases h

theorem decimal_eq_some_iff :
    decimal cs = some n ↔ (∀ d ∈ cs, d.isDigit = true) ∧ n = Nat.ofDigitChars 10 cs 0 := by
  rw [decimal, Nat.ofDigitChars]
  generalize 0 = m
  induction cs generalizing m with
  | nil =>
    rw [foldlM_nil, foldl_nil]
    exact ⟨fun h => ⟨forall_mem_nil _, (Option.some.inj h).symm⟩, fun h => congrArg some h.2.symm⟩
  | cons c cs ih =>
    rw [foldlM_cons, foldl_cons, forall_mem_cons]
    by_cases hc : c.isDigit = true
    · rw [if_pos hc]
      simp only [hc, true_and]
      exact ih _
    · simp [hc]

/-- The marks are tried in an order in which no longer one comes later. -/
theorem pairwise_punctuation : punctuation.Pairwise fun a b => b.length ≤ a.length := by decide

theorem punctuationAt_eq_some_iff {mark : String} :
    punctuationAt cs = some mark ↔ mark ∈ punctuation ∧ mark.toList <+: cs ∧
      ∀ m ∈ punctuation, m.toList <+: cs → m.length ≤ mark.length := by
  have hsound {m : String} (h : punctuationAt cs = some m) : m ∈ punctuation ∧ m.toList <+: cs ∧
      ∀ m' ∈ punctuation, m'.toList <+: cs → m'.length ≤ m.length := by
    obtain ⟨hm, before, after, hsplit, hbefore⟩ := find?_eq_some_iff_append.1 h
    refine ⟨hsplit ▸ mem_append_right _ mem_cons_self, isPrefixOf_iff_prefix.1 hm,
      fun m' hm' hpre => ?_⟩
    rw [hsplit, mem_append, mem_cons] at hm'
    rcases hm' with hm' | rfl | hm'
    · have := hbefore m' hm'
      rw [ isPrefixOf_iff_prefix.2 hpre] at this
      cases this
    · exact Nat.le_refl _
    · have hpair := pairwise_punctuation
      rw [hsplit, pairwise_append, pairwise_cons] at hpair
      exact hpair.2.1.1 m' hm'
  refine ⟨hsound, fun ⟨hmem, hpre, hlongest⟩ => ?_⟩
  cases h : punctuationAt cs with
  | none => exact absurd ( isPrefixOf_iff_prefix.2 hpre) (find?_eq_none.1 h mark hmem)
  | some m =>
    -- Both marks are the longest, and start the same text.
    obtain ⟨hmem', hpre', hlongest'⟩ := hsound h
    have hlen := Nat.le_antisymm (hlongest m hmem' hpre') (hlongest' mark hmem hpre)
    rw [← String.length_toList, ← String.length_toList] at hlen
    have heq : m.toList = mark.toList := by
      rw [prefix_iff_eq_take.1 hpre', prefix_iff_eq_take.1 hpre, hlen]
    rw [String.toList_inj.1 heq]

/-! ### First characters -/

theorem isDigit_iff : c.isDigit = true ↔ 48 ≤ c.toNat ∧ c.toNat ≤ 57 := by
  simp only [Char.isDigit, UInt32.le_iff_toNat_le, Bool.and_eq_true, decide_eq_true_eq]
  exact Iff.rfl

theorem startsIdent_iff : startsIdent c = true ↔
    (65 ≤ c.toNat ∧ c.toNat ≤ 90 ∨ 97 ≤ c.toNat ∧ c.toNat ≤ 122) ∨ c = '_' := by
  show (decide (65 ≤ c.val ∧ c.val ≤ 90) || (97 ≤ c.val && c.val ≤ 122) || c = '_') = true ↔ _
  simp only [UInt32.le_iff_toNat_le, Bool.or_eq_true, Bool.and_eq_true, decide_eq_true_eq]
  exact Iff.rfl

theorem isBlank_eq_false (h : 33 ≤ c.toNat ∧ c.toNat ≤ 126) : Text.isBlank c = false := by
  simp [Text.isBlank, Text.blankRanges]
  omega

/-- What starts an identifier or a number starts neither a gap nor a preprocessor line. -/
theorem opens_of_word (h : startsIdent c = true ∨ c.isDigit = true) :
    Text.isBlank c = false ∧ c ≠ '/' ∧ c ≠ '#' := by
  refine ⟨?_, by rintro rfl; revert h; decide, by rintro rfl; revert h; decide⟩
  rw [startsIdent_iff, isDigit_iff] at h
  rcases h with (h | rfl) | h
  · exact isBlank_eq_false (by omega)
  · decide
  · exact isBlank_eq_false (by omega)

theorem startsIdent_of_isDigit (h : c.isDigit = true) : startsIdent c = false := by
  have hc := isDigit_iff.1 h
  rw [← Bool.not_eq_true, startsIdent_iff]
  rintro (h | rfl)
  · omega
  · revert hc
    decide

/-- The first character of a mark starts nothing else, apart from a comment. -/
theorem head?_of_mem_punctuation : ∀ mark ∈ punctuation, mark.toList ≠ [] ∧
    ∀ c ∈ mark.toList.head?, Text.isBlank c = false ∧ c ≠ '#' ∧ startsIdent c = false ∧
      c.isDigit = false ∧ c ≠ '"' ∧ c ≠ '$' ∧ c ≠ '\'' := by
  repeat' refine forall_mem_cons.2 ⟨⟨by decide, by rintro c ⟨⟩; decide⟩, ?_⟩
  exact forall_mem_nil _

theorem opensComment_cons :
    OpensComment (c :: cs) ↔ c = '/' ∧ cs.head? = some '/' ∨ c = '/' ∧ cs.head? = some '*' := by
  have hpre (d : Char) : ['/', d] <+: c :: cs ↔ c = '/' ∧ cs.head? = some d := by
    rw [cons_prefix_cons, eq_comm]
    cases cs with
    | nil => simp
    | cons e cs => simp [eq_comm]
  rw [OpensComment, hpre, hpre]

/-! ### Lexemes -/

section

variable {rest text : List Char} {kind : Kind} {c : Char} {cs : List Char} {lex : Lexeme}

theorem Gap.lexeme (h : Gap rest text) :
    ∃ c cs, text = c :: cs ∧ Token.lexeme c (cs ++ rest) = .ok ⟨none, cs.length⟩ := by
  cases h with
  | blank h => exact ⟨_, [], rfl, if_pos h⟩
  | @line body h hrest =>
    have htake : ('/' :: body ++ rest).takeWhile (· ≠ '\n') = '/' :: body := by
      refine takeWhile_append_of_head? (fun d hd => decide_eq_true ?_) fun d hd => ?_
      · rintro rfl
        exact h ((mem_cons.1 hd).resolve_left (by decide))
      · exact decide_eq_false (not_not_intro (hrest d hd))
    refine ⟨'/', '/' :: body, rfl, ?_⟩
    rw [Token.lexeme, if_neg (by decide), if_pos ⟨rfl, rfl⟩, htake]
  | @block body h =>
    refine ⟨'/', '*' :: body ++ ['*', '/'], rfl, ?_⟩
    have hlen := commentLength_append h rest
    rw [Token.lexeme, if_neg (by decide), if_neg (by rintro ⟨-, ⟨⟩⟩), if_pos ⟨rfl, rfl⟩]
    simp only [cons_append, tail_cons, append_assoc, nil_append, hlen]
    simp

theorem Spells.lexeme (h : Spells rest text kind) :
    ∃ c cs, text = c :: cs ∧ Token.lexeme c (cs ++ rest) = .ok ⟨some kind, cs.length⟩ := by
  cases h with
  | @ident _ h hrest =>
    obtain _ | ⟨c, cs⟩ := text
    · exact h.elim
    obtain ⟨hc, hcs⟩ : startsIdent c = true ∧ _ := h
    refine ⟨c, cs, rfl, ?_⟩
    have htake : (cs ++ rest).takeWhile continuesIdent = cs := takeWhile_append_of_head? hcs hrest
    obtain ⟨hblank, hslash, hhash⟩ := opens_of_word (.inl hc)
    simp only [Token.lexeme, hblank, hslash, hhash, hc, htake, false_and,
      if_true, if_false, Bool.false_eq_true]
  | @number _ hne h hrest hbound =>
    obtain ⟨c, cs, rfl⟩ := exists_cons_of_ne_nil hne
    refine ⟨c, cs, rfl, ?_⟩
    obtain ⟨hc, hcs⟩ := forall_mem_cons.1 h
    have hbound : Nat.ofDigitChars 10 (c :: cs) 0 < numberBound := hbound
    obtain ⟨hblank, hslash, hhash⟩ := opens_of_word (.inr hc)
    have hident := startsIdent_of_isDigit hc
    have htake : (cs ++ rest).takeWhile Char.isAlphanum = cs :=
      takeWhile_append_of_head? (fun d hd => by rw [Char.isAlphanum, hcs d hd, Bool.or_true]) hrest
    have hdec := decimal_eq_some_iff.2 ⟨h, rfl⟩
    simp only [Token.lexeme, hblank, hslash, hhash, hident, hc, htake, hdec, hbound, false_and, if_true, if_false,
      Bool.false_eq_true]
  | @quoted body text h =>
    refine ⟨'"', body ++ ['"'], rfl, ?_⟩
    have hread := quotedText_append h rest
    rw [Token.lexeme, if_neg (by decide), if_neg (by rintro ⟨⟨⟩, -⟩), if_neg (by rintro ⟨⟨⟩, -⟩),
      if_neg (by decide), if_neg (by decide), if_neg (by decide), if_pos rfl, append_assoc,
      singleton_append, hread, length_append]
    rfl
  | dollar => exact ⟨'$', [], rfl, rfl⟩
  | @punct mark h hlongest hcomment =>
    obtain ⟨hne, hhead⟩ := head?_of_mem_punctuation mark h
    obtain ⟨c, cs, hmark⟩ := exists_cons_of_ne_nil hne
    refine ⟨c, cs, hmark, ?_⟩
    have hfound := punctuationAt_eq_some_iff.2 ⟨h, prefix_append _ _, hlongest⟩
    have hlen : mark.length - 1 = cs.length := by
      rw [← String.length_toList, hmark]
      rfl
    rw [hmark] at hhead hcomment hfound
    rw [cons_append, opensComment_cons, not_or] at hcomment
    obtain ⟨hblank, hhash, hident, hdigit, hquote, hdollar, happ⟩ := hhead c rfl
    simp only [Token.lexeme, hblank, hcomment, hhash, hident, hdigit, hquote, hdollar, happ, if_false,
      Bool.false_eq_true]
    rw [cons_append] at hfound
    simp only [hfound, hlen]

/-- A lexeme is a gap or a token. -/
theorem of_lexeme (h : Token.lexeme c cs = .ok lex) :
    ∃ text rest, c :: cs = text ++ rest ∧ text.length = lex.more + 1 ∧
      (lex.kind = none ∧ Gap rest text ∨ ∃ kind, lex.kind = some kind ∧ Spells rest text kind) := by
  rw [Token.lexeme] at h
  split at h
  · rename_i hblank
    cases h
    exact ⟨[c], cs, rfl, rfl, .inl ⟨rfl, .blank hblank⟩⟩
  split at h
  · rename_i hopen
    obtain ⟨rfl, hhead⟩ := hopen
    obtain ⟨ds, rfl⟩ := head?_eq_some_iff.1 hhead
    obtain ⟨rest, hds, hbody, hrest⟩ := exists_takeWhile_append (· ≠ '\n') ds
    cases h
    refine ⟨'/' :: '/' :: ds.takeWhile (· ≠ '\n'), rest, ?_, rfl, .inl ⟨rfl, .line ?_ ?_⟩⟩
    · rw [cons_append, cons_append, ← hds]
    · exact fun hmem => of_decide_eq_true (hbody _ hmem) rfl
    · exact fun d hd => not_not.1 (of_decide_eq_false (hrest d hd))
  rename_i hline
  split at h
  · rename_i hopen
    obtain ⟨rfl, hhead⟩ := hopen
    obtain ⟨ds, rfl⟩ := head?_eq_some_iff.1 hhead
    split at h
    · rename_i n hlen
      cases h
      obtain ⟨body, rest, hds, rfl, hbody⟩ := commentLength_eq_some hlen
      obtain rfl : ds = body ++ '*' :: '/' :: rest := hds
      exact ⟨'/' :: '*' :: body ++ ['*', '/'], rest, by simp, by simp, .inl ⟨rfl, .block hbody⟩⟩
    · cases h
  rename_i hblock
  split at h
  · cases h
  split at h
  · rename_i hident
    cases h
    obtain ⟨rest, hcs, htail, hrest⟩ := exists_takeWhile_append continuesIdent cs
    exact ⟨c :: cs.takeWhile continuesIdent, rest, by rw [cons_append, ← hcs], rfl,
      .inr ⟨_, rfl, .ident ⟨hident, htail⟩ hrest⟩⟩
  split at h
  · dsimp only at h
    split at h
    · rename_i n hn
      split at h
      · rename_i hbound
        cases h
        obtain ⟨hdigits, rfl⟩ := decimal_eq_some_iff.1 hn
        obtain ⟨rest, hcs, -, hrest⟩ := exists_takeWhile_append Char.isAlphanum cs
        exact ⟨c :: cs.takeWhile Char.isAlphanum, rest, by rw [cons_append, ← hcs], rfl,
          .inr ⟨_, rfl, .number (cons_ne_nil _ _) hdigits hrest hbound⟩⟩
      · cases h
    · cases h
  split at h
  · rename_i hquote
    subst hquote
    split at h
    · rename_i text n hread
      cases h
      obtain ⟨body, rest, rfl, rfl, hbody⟩ := quotedText_eq_some hread
      exact ⟨'"' :: body ++ ['"'], rest, by simp, by simp, .inr ⟨_, rfl, .quoted hbody⟩⟩
    · cases h
  split at h
  · rename_i hdollar
    subst hdollar
    cases h
    exact ⟨['$'], cs, rfl, rfl, .inr ⟨_, rfl, .dollar⟩⟩
  split at h
  · cases h
  split at h
  · rename_i mark hfound
    cases h
    obtain ⟨hmem, ⟨rest, hrest⟩, hlongest⟩ := punctuationAt_eq_some_iff.1 hfound
    refine ⟨mark.toList, rest, hrest.symm, ?_, .inr ⟨_, rfl, .punct hmem ?_ ?_⟩⟩
    · have hpos := length_pos_iff.2 (head?_of_mem_punctuation mark hmem).1
      rw [String.length_toList] at hpos ⊢
      exact (Nat.sub_add_cancel hpos).symm
    · rwa [hrest]
    · rw [hrest, opensComment_cons]
      exact not_or.2 ⟨hline, hblock⟩
  · cases h

end

end HeapShape.Token
