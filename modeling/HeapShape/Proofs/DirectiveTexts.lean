import HeapShape.Proofs.Consuming
import HeapShape.Proofs.Reading
import HeapShape.Proofs.Scanning

/-!
# Directives are read as they are written

A directive whose names are identifiers and whose parameters fit its predicate is read back from its
text. These are the only directives that are ever read.

* `Directive.Proper`: a directive that can be written;
* `Directive.kinds`: the tokens of a written directive;
* `Directive.scans_text`: its text is scanned into these tokens;
* `Directive.takes_whole`: the directive is read from them;
* `Directive.proper_of_parse`: a directive that is read can be written;
* `Directive.parse_text_iff_proper`: a directive is read from its text exactly if it can be written.
-/

namespace HeapShape

open List

/-! ### Directives that can be written -/

/-- A name is an identifier. -/
def IsName (name : String) : Prop := Token.IsIdent name.toList

instance : DecidablePred IsName := fun name => inferInstanceAs (Decidable (Token.IsIdent name.toList))

/-- The names of a block are identifiers, and there are as many as a predicate asks for. -/
def ParamBlock.Proper (block : ParamBlock) (pred : Predicate) : Prop :=
  (∀ name ∈ block.ptrs ++ block.sets, IsName name) ∧ block.Fits pred

instance (block : ParamBlock) (pred : Predicate) : Decidable (block.Proper pred) :=
  inferInstanceAs (Decidable (_ ∧ _))

/-- The names of a directive are identifiers, and its parameters fit its predicate. -/
def Directive.Proper : Directive → Prop
  | .declareSets names | .forceLive names => ∀ name ∈ names, IsName name
  | .assumeSubset sub sup => IsName sub ∧ IsName sup
  | .addInductive var pred params => IsName var ∧ params.Proper pred
  | .checkInductive var pred params => IsName var ∧ ∀ block ∈ params, block.Proper pred

instance : DecidablePred Directive.Proper
  | .declareSets names => inferInstanceAs (Decidable (∀ name ∈ names, IsName name))
  | .forceLive names => inferInstanceAs (Decidable (∀ name ∈ names, IsName name))
  | .assumeSubset sub sup => inferInstanceAs (Decidable (IsName sub ∧ IsName sup))
  | .addInductive var pred params => inferInstanceAs (Decidable (IsName var ∧ params.Proper pred))
  | .checkInductive var pred params =>
    inferInstanceAs (Decidable (IsName var ∧ ∀ block ∈ params, block.Proper pred))

/-! ### Tokens of a directive -/

/-- Names with commas between them. -/
def nameKinds (names : List String) : List Token.Kind :=
  (names.map Token.Kind.ident).intersperse (.punct ",")

theorem nameKinds_cons (name : String) (names : List String) :
    ∃ tail, nameKinds (name :: names) = .ident name :: tail := by
  cases names <;> exact ⟨_, rfl⟩

/-- The tokens of a block. -/
def ParamBlock.kinds (block : ParamBlock) : List Token.Kind :=
  .punct "[" :: nameKinds block.ptrs ++ .punct "|" :: nameKinds block.first ++
    .punct "|" :: nameKinds block.second ++ [.punct "]"]

namespace Directive

/-- The keyword of a directive. -/
def keyword : Directive → String
  | .declareSets _ => "decl_setvars"
  | .assumeSubset .. => "set_assume"
  | .addInductive .. => "add_inductive"
  | .checkInductive .. => "check_inductive"
  | .forceLive _ => "force_live"

/-- The tokens of a variable, a predicate and its parameters if it has any. -/
def inductiveKinds (var : String) (pred : Predicate) (params : Option ParamBlock) : List Token.Kind :=
  .ident var :: .punct "," :: .ident pred.name :: params.elim [] fun block => .punct "," :: block.kinds

/-- The tokens between the parentheses of a directive. -/
def argumentKinds : Directive → List Token.Kind
  | .declareSets names | .forceLive names => nameKinds names
  | .assumeSubset sub sup => [.ident sub, .dollar, .ident "sub", .ident sup]
  | .addInductive var pred params => inductiveKinds var pred (some params)
  | .checkInductive var pred params => inductiveKinds var pred params

/-- The tokens of a directive. -/
def kinds (d : Directive) : List Token.Kind :=
  .ident d.keyword :: .punct "(" :: d.argumentKinds ++ [.punct ")"]

end Directive

/-! ### Scanning the text -/

namespace Tokens.Scans

variable {rest : List Char} {kinds : List Token.Kind}

theorem blank (h : Scans rest kinds) : Scans (' ' :: rest) kinds :=
  .of_gap (.blank (by decide) : Token.Gap rest [' ']) h

theorem word {name : String} (hname : IsName name)
    (hrest : ∀ d ∈ rest.head?, Token.continuesIdent d = false) (h : Scans rest kinds) :
    Scans (name.toList ++ rest) (.ident name :: kinds) := by
  have htoken := of_token (.ident hname hrest) h
  rwa [String.ofList_toList] at htoken

/-- The marks that no longer mark starts with. -/
def solitary : List String := ["(", ")", "[", "]", ","]

theorem mark (mark : String) (hmark : mark ∈ solitary) (h : Scans rest kinds) :
    Scans (mark.toList ++ rest) (.punct mark :: kinds) := by
  have htable : ∀ mark ∈ solitary, mark ∈ Token.punctuation ∧ mark.toList ≠ [] ∧
      mark.toList.head? ≠ some '/' ∧
      ∀ m ∈ Token.punctuation, m.toList.head? = mark.toList.head? → m.length ≤ mark.length := by
    decide
  obtain ⟨hmem, hne, hslash, hlongest⟩ := htable mark hmark
  obtain ⟨c, cs, hcs⟩ := exists_cons_of_ne_nil hne
  refine of_token (.punct hmem (fun m hm hpre => hlongest m hm ?_) fun hcomment => hslash ?_) h
  · have hm' := (Token.head?_of_mem_punctuation m hm).1
    obtain ⟨d, ds, hds⟩ := exists_cons_of_ne_nil hm'
    rw [hcs, hds, cons_append, cons_prefix_cons] at hpre
    rw [hcs, hds, head?_cons, head?_cons, hpre.1]
  · rw [hcs, cons_append, Token.opensComment_cons] at hcomment
    rw [hcs, head?_cons, hcomment.elim And.left And.left]

/-- A bar in front of a blank is not a part of a double bar. -/
theorem bar (h : Scans rest kinds) : Scans (" | ".toList ++ rest) (.punct "|" :: kinds) := by
  have htable : ∀ m ∈ Token.punctuation, m.toList.length ≤ 2 ∧
      (m.toList <+: ['|', ' '] → m.length ≤ "|".length) := by
    decide
  have hbar : Token.Spells (' ' :: rest) "|".toList (.punct "|") := by
    refine .punct (by decide) (fun m hm hpre => ?_) ?_
    · obtain ⟨hlen, hbar⟩ := htable m hm
      exact hbar (prefix_of_prefix_length_le hpre (prefix_append ['|', ' '] rest) hlen)
    · rw [show "|".toList = ['|'] from rfl, singleton_append, Token.opensComment_cons]
      rintro (⟨⟨⟩, -⟩ | ⟨⟨⟩, -⟩)
  have hmark := of_token hbar (blank h)
  exact blank hmark

theorem comma (h : Scans rest kinds) : Scans (", ".toList ++ rest) (.punct "," :: kinds) :=
  mark "," (by decide) (.blank h)

/-- A keyword with the parenthesis behind it. -/
theorem opening (keyword : String) {text : String} (htext : text.toList = keyword.toList ++ "(".toList)
    (hkeyword : IsName keyword) (h : Scans rest kinds) :
    Scans (text.toList ++ rest) (.ident keyword :: .punct "(" :: kinds) := by
  rw [htext, append_assoc]
  refine word hkeyword ?_ (mark "(" (by decide) h)
  rintro d ⟨⟩
  rfl

/-- The inclusion sign with blanks around it. -/
theorem inclusionSign (h : Scans rest kinds) :
    Scans (" $sub ".toList ++ rest) (.dollar :: .ident "sub" :: kinds) := by
  have hsign : " $sub ".toList = ' ' :: '$' :: ("sub".toList ++ [' ']) := by decide
  rw [hsign]
  rw [cons_append, cons_append, append_assoc]
  have hname : IsName "sub" := by decide
  refine blank (of_token (.dollar : Token.Spells _ ['$'] _) (word hname ?_ (blank h)))
  rintro d ⟨⟩
  rfl

/-- Names with commas and blanks between them. -/
theorem names {names : List String} (hnames : ∀ name ∈ names, IsName name)
    (hrest : ∀ d ∈ rest.head?, Token.continuesIdent d = false) (h : Scans rest kinds) :
    Scans ((", ".intercalate names).toList ++ rest) (nameKinds names ++ kinds) := by
  induction names with
  | nil => exact h
  | cons name names ih =>
    obtain ⟨hname, hnames⟩ := forall_mem_cons.1 hnames
    cases names with
    | nil =>
      rw [String.intercalate_singleton]
      exact word hname hrest h
    | cons name' names =>
      rw [String.intercalate_cons_cons, String.toList_append, String.toList_append, append_assoc,
        append_assoc]
      refine word hname ?_ (comma (ih hnames))
      rintro d ⟨⟩
      rfl

/-- What ends a name does not continue it. -/
theorem head_of_cons {c : Char} (hc : Token.continuesIdent c = false) (cs : List Char) :
    ∀ d ∈ (c :: cs).head?, Token.continuesIdent d = false := by
  rintro d ⟨⟩
  exact hc

theorem block {block : ParamBlock} {pred : Predicate} (hblock : block.Proper pred) (h : Scans rest kinds) :
    Scans (block.text.toList ++ rest) (block.kinds ++ kinds) := by
  have hnames := hblock.1
  simp only [ParamBlock.sets, forall_mem_append] at hnames
  simp only [ParamBlock.text, ParamBlock.kinds, String.toList_append, append_assoc, cons_append,
    nil_append]
  have hsecond := names hnames.2.2 (head_of_cons rfl _) (mark "]" (by decide) h)
  have hfirst := names hnames.2.1 (head_of_cons rfl _) (bar hsecond)
  exact mark "[" (by decide) (names hnames.1 (head_of_cons rfl _) (bar hfirst))

end Tokens.Scans

namespace Predicate

theorem isName_name (pred : Predicate) : IsName pred.name := by cases pred <;> decide

theorem ofName?_name (pred : Predicate) : ofName? pred.name = some pred := by cases pred <;> decide

end Predicate

namespace Directive

open Tokens.Scans

/-- The text of a directive is scanned into its tokens. -/
theorem scans_text {d : Directive} (hd : d.Proper) : Tokens.Scans d.text.toList d.kinds := by
  have hclose : Tokens.Scans ")".toList [.punct ")"] := mark ")" (by decide) .nil
  cases d with
  | declareSets names =>
    show Tokens.Scans ("decl_setvars(" ++ ", ".intercalate names ++ ")").toList _
    rw [String.toList_append, String.toList_append, append_assoc]
    exact opening "decl_setvars" (by decide) (by decide)
      (Tokens.Scans.names hd (head_of_cons rfl _) hclose)
  | forceLive names =>
    show Tokens.Scans ("force_live(" ++ ", ".intercalate names ++ ")").toList _
    rw [String.toList_append, String.toList_append, append_assoc]
    exact opening "force_live" (by decide) (by decide) (Tokens.Scans.names hd (head_of_cons rfl _) hclose)
  | assumeSubset sub sup =>
    show Tokens.Scans ("set_assume(" ++ sub ++ " $sub " ++ sup ++ ")").toList _
    simp only [String.toList_append, append_assoc]
    have hsup := word hd.2 (head_of_cons rfl _) hclose
    exact opening "set_assume" (by decide) (by decide) (word hd.1 (head_of_cons rfl _) (inclusionSign hsup))
  | addInductive var pred params =>
    show Tokens.Scans ("add_inductive(" ++ var ++ ", " ++ pred.name ++ ", " ++ params.text ++ ")").toList _
    simp only [String.toList_append, append_assoc]
    have hpred := word pred.isName_name (head_of_cons rfl _) (comma (block hd.2 hclose))
    exact opening "add_inductive" (by decide) (by decide) (word hd.1 (head_of_cons rfl _) (comma hpred))
  | checkInductive var pred params =>
    cases params with
    | none =>
      show Tokens.Scans ("check_inductive(" ++ var ++ ", " ++ pred.name ++ ")").toList _
      simp only [String.toList_append, append_assoc]
      have hpred := word pred.isName_name (head_of_cons rfl _) hclose
      exact opening "check_inductive" (by decide) (by decide) (word hd.1 (head_of_cons rfl _) (comma hpred))
    | some params =>
      show Tokens.Scans
        ("check_inductive(" ++ var ++ ", " ++ pred.name ++ ", " ++ params.text ++ ")").toList _
      simp only [String.toList_append, append_assoc]
      have hpred := word pred.isName_name (head_of_cons rfl _) (comma (block (hd.2 params rfl) hclose))
      exact opening "check_inductive" (by decide) (by decide) (word hd.1 (head_of_cons rfl _) (comma hpred))

/-! ### Reading the tokens -/

open Reader

section

variable {ks ks' : List Token.Kind}

theorem takes_namesFrom {listed : List String} (read : List String) (hne : listed ≠ [])
    (hks : ks.head? ≠ some (.punct ",")) :
    (namesFrom read).Takes (nameKinds listed ++ ks) (· = read ++ listed) ks := by
  induction listed generalizing read with
  | nil => exact absurd rfl hne
  | cons name listed ih =>
    cases listed with
    | nil => exact .fix fun _ _ => .expectIdent fun _ => .not_eatPunct hks (.pure rfl)
    | cons name' listed =>
      have hread := ih (read ++ [name]) (cons_ne_nil _ _)
      rw [append_assoc] at hread
      refine .fix fun more hmore => .expectIdent fun _ => .eat (hmore _ _ _ _ ?_ hread)
      exact Nat.lt_succ_of_lt (Nat.lt_succ_self _)

/-- Names up to a closing parenthesis. -/
theorem takes_nameList (listed : List String) :
    nameList.Takes (nameKinds listed ++ .punct ")" :: ks) (· = listed) (.punct ")" :: ks) := by
  cases listed with
  | nil => exact .isPunct (.pure rfl)
  | cons name listed =>
    obtain ⟨tail, htail⟩ := nameKinds_cons name listed
    refine .not_isPunct ?_ (takes_namesFrom [] (cons_ne_nil _ _) (Takes.head?_punct_ne (by decide)))
    rw [htail]
    exact Takes.head?_ident_ne

variable {done : List (List String)} {slot : List String} {r : List (List String)} {name ending : String}

theorem takes_slots_close : (slots (done, slot)).Takes (.punct "]" :: ks) (· = done ++ [slot]) ks :=
  .fix fun _ _ => .eat (.pure rfl)

theorem takes_slots_bar (h : (slots (done ++ [slot], [])).Takes ks (· = r) ks') :
    (slots (done, slot)).Takes (.punct "|" :: ks) (· = r) ks' := by
  refine .fix fun more hmore => .not_eatPunct (Takes.head?_punct_ne (by decide)) (.eat ?_)
  exact hmore _ _ _ _ (Nat.lt_succ_self _) h

/-- A name of a slot in front of a comma. -/
theorem takes_slots_name (h : (slots (done, slot ++ [name])).Takes ks (· = r) ks') :
    (slots (done, slot)).Takes (.ident name :: .punct "," :: ks) (· = r) ks' := by
  refine .fix fun more hmore => .not_eatPunct Takes.head?_ident_ne (.not_eatPunct Takes.head?_ident_ne ?_)
  refine .not_eatPunct Takes.head?_ident_ne (.expectIdent fun _ => .look fun c _ => .eat ?_)
  exact hmore _ _ _ _ (Nat.lt_succ_of_lt (Nat.lt_succ_self _)) h

/-- The last name of a slot. -/
theorem takes_slots_last (hending : ending = "|" ∨ ending = "]")
    (h : (slots (done, slot ++ [name])).Takes (.punct ending :: ks) (· = r) ks') :
    (slots (done, slot)).Takes (.ident name :: .punct ending :: ks) (· = r) ks' := by
  refine .fix fun more hmore => .not_eatPunct Takes.head?_ident_ne (.not_eatPunct Takes.head?_ident_ne ?_)
  refine .not_eatPunct Takes.head?_ident_ne (.expectIdent fun _ => .look fun c hc => ?_)
  have hends : (c.isPunct "]" || c.isPunct "|" || c.isPunct "||") = true := by
    rcases hending with rfl | rfl <;> simp [Takes.isPunct_of_kinds hc]
  refine .not_eatPunct (Takes.head?_punct_ne ?_) ?_
  · rcases hending with rfl | rfl <;> decide
  · rw [if_pos hends]
    exact hmore _ _ _ _ (Nat.lt_succ_self _) h

/-- The names of a slot. -/
theorem takes_slots_names (hending : ending = "|" ∨ ending = "]") {listed : List String}
    (h : (slots (done, slot ++ listed)).Takes (.punct ending :: ks) (· = r) ks') :
    (slots (done, slot)).Takes (nameKinds listed ++ .punct ending :: ks) (· = r) ks' := by
  induction listed generalizing slot with
  | nil => rwa [append_nil] at h
  | cons name listed ih =>
    rw [append_cons] at h
    cases listed with
    | nil =>
      rw [append_nil] at h
      exact takes_slots_last hending h
    | cons name' listed => exact takes_slots_name (ih h)

theorem takes_paramBlock (block : ParamBlock) : paramBlock.Takes (block.kinds ++ ks) (· = block) ks := by
  simp only [ParamBlock.kinds, cons_append, append_assoc, nil_append]
  have hslots : (slots ([], [])).Takes _ (· = [block.ptrs, block.first, block.second]) ks :=
    takes_slots_names (.inl rfl) (takes_slots_bar (takes_slots_names (.inl rfl) (takes_slots_bar
      (takes_slots_names (.inr rfl) takes_slots_close))))
  refine .expectPunct (hslots.bind ?_)
  rintro _ rfl
  exact .pure rfl

theorem takes_checkArity {pred : Predicate} {block : ParamBlock} (h : block.Fits pred) (span : Span) :
    (checkArity span pred block).Takes ks (fun _ => True) ks := by
  rw [checkArity, if_pos h]
  exact .pure trivial

/-- A variable and a predicate, with or without parameters, up to a closing parenthesis. -/
theorem takes_inductiveArgs (var : String) (pred : Predicate) (params : Option ParamBlock) :
    inductiveArgs.Takes (inductiveKinds var pred params ++ .punct ")" :: ks)
      (fun r => ∃ span, r = (var, pred, span, params)) (.punct ")" :: ks) := by
  refine .expectIdent fun _ => .expectPunct (.expectIdent fun span => ?_)
  dsimp only
  rw [Predicate.ofName?_name]
  cases params with
  | none => exact .not_eatPunct (Takes.head?_punct_ne (by decide)) (.pure ⟨span, rfl⟩)
  | some block =>
    refine .eat ((takes_paramBlock block).bind ?_)
    rintro _ rfl
    exact .pure ⟨span, rfl⟩

theorem takes_inclusion (sub sup : String) :
    inclusion.Takes (.ident sub :: .dollar :: .ident "sub" :: .ident sup :: ks) (· = (sub, sup)) ks := by
  refine .expectIdent fun _ => .next fun t ht => ?_
  rw [if_pos ht]
  exact .eat (.expectIdent fun _ => .pure rfl)

/-- The arguments of a directive, up to the closing parenthesis. -/
theorem takes_arguments {d : Directive} (hd : d.Proper) (origin : Span) :
    (arguments origin d.keyword).Takes (d.argumentKinds ++ .punct ")" :: ks) (· = d) (.punct ")" :: ks) := by
  cases d with
  | declareSets names =>
    rw [keyword, arguments, if_pos rfl]
    exact (takes_nameList names).bind fun _ h => .pure (congrArg _ h)
  | forceLive names =>
    rw [keyword, arguments, if_neg (by decide), if_pos rfl]
    exact (takes_nameList names).bind fun _ h => .pure (congrArg _ h)
  | assumeSubset sub sup =>
    rw [keyword, arguments, if_neg (by decide), if_neg (by decide), if_pos rfl]
    refine (takes_inclusion sub sup).bind ?_
    rintro _ rfl
    exact .pure rfl
  | addInductive var pred params =>
    rw [keyword, arguments, if_neg (by decide), if_neg (by decide), if_neg (by decide), if_pos rfl]
    refine (takes_inductiveArgs var pred (some params)).bind ?_
    rintro _ ⟨span, rfl⟩
    exact (takes_checkArity hd.2.2 span).bind fun _ _ => .pure rfl
  | checkInductive var pred params =>
    rw [keyword, arguments, if_neg (by decide), if_neg (by decide), if_neg (by decide),
      if_neg (by decide), if_pos rfl]
    refine (takes_inductiveArgs var pred params).bind ?_
    rintro _ ⟨span, rfl⟩
    cases params with
    | none => exact .pure rfl
    | some block => exact (takes_checkArity (hd.2 block rfl).2 span).bind fun _ _ => .pure rfl

/-- A directive is read from its tokens. -/
theorem takes_whole {d : Directive} (hd : d.Proper) (origin : Span) :
    (whole origin).Takes d.kinds (· = d) [] := by
  refine .expectIdent fun _ => .expectPunct ((takes_arguments hd origin).bind ?_)
  rintro _ rfl
  exact .expectPunct (.atEnd (.pure rfl))

theorem parse_text {d : Directive} (hd : d.Proper) (origin : Span) : parse origin d.text = .ok d := by
  obtain ⟨ts, hts, hkinds⟩ := scans_text hd origin
  obtain ⟨_, toks', hwhole, rfl, -⟩ := takes_whole hd origin ts.list ts.finish hkinds
  rw [parse, Tokens.scan, hts]
  show (whole origin ⟨ts.list, ts.finish⟩ >>= fun r => .ok r.1) = _
  rw [hwhole]
  rfl

end

end Directive

/-! ### Names among the tokens -/

/-- The identifiers among the tokens that are left are names. -/
def Cursor.Named (c : Cursor) : Prop := ∀ t ∈ c.rest, ∀ name, t.kind = .ident name → IsName name

theorem Cursor.Named.advance {c : Cursor} (h : c.Named) : c.advance.Named :=
  fun t ht => h t (mem_of_mem_tail ht)

theorem Tokens.Cuts.isName {origin : Span} {before text : List Char} {ts : List Token}
    (h : Cuts origin before text ts) : ∀ t ∈ ts, ∀ name, t.kind = .ident name → IsName name := by
  induction h with
  | finish _ =>
    intro t ht name hname
    rw [mem_singleton.1 ht] at hname
    cases hname
  | token _ htext _ ih =>
    refine forall_mem_cons.2 ⟨fun name hname => ?_, ih⟩
    cases htext with
    | ident hident _ =>
      cases hname
      rw [IsName, String.toList_ofList]
      exact hident
    | _ => cases hname

theorem Tokens.named_of_scan {origin : Span} {source : String} {ts : Tokens}
    (h : scan origin source = .ok ts) : (Cursor.ofTokens ts).Named := by
  have hcuts : Cuts origin [] source.toList ts.all := cuts_of_scanFrom (by rwa [Span.after_nil])
  exact fun t ht => hcuts.isName t (mem_append_left _ ht)

namespace Reader

variable {α β : Type} {m : Reader α} {f : α → Reader β} {P : α → Prop} {Q : β → Prop}

/-- Where identifiers are names, a reader leaves them so and returns something with a property. -/
def Yields (m : Reader α) (P : α → Prop) : Prop :=
  ∀ c a c', c.Named → m c = .ok (a, c') → c'.Named ∧ P a

namespace Yields

theorem pure {a : α} (h : P a) : (Pure.pure a : Reader α).Yields P := by
  rintro c _ _ hc ⟨⟩
  exact ⟨hc, h⟩

theorem bind (hm : m.Yields P) (hf : ∀ a, P a → (f a).Yields Q) : (m >>= f).Yields Q := by
  intro c b c' hc hb
  obtain ⟨⟨a, c₁⟩, ha, hb⟩ := ok_of_bind hb
  obtain ⟨hc₁, hPa⟩ := hm c a c₁ hc ha
  exact hf a hPa c₁ b c' hc₁ hb

theorem malformed (span : Span) (e : Malformed) : (Reader.malformed span e : Reader α).Yields P := by
  rintro c _ _ - ⟨⟩

theorem get : (MonadState.get : Reader Cursor).Yields Cursor.Named := by
  rintro c _ _ hc ⟨⟩
  exact ⟨hc, hc⟩

theorem set {c : Cursor} (hc : c.Named) : (MonadStateOf.set c : Reader PUnit).Yields fun _ => True := by
  rintro c₁ _ _ - ⟨⟩
  exact ⟨hc, trivial⟩

theorem lift {x : Except SourceError α} (h : ∀ a, x = .ok a → P a) : (liftM x : Reader α).Yields P := by
  intro c a c' hc ha
  obtain ⟨a', hx, ha⟩ := ok_of_bind ha
  cases ha
  exact ⟨hc, h a hx⟩

/-- The calls of a reader that calls itself, from a class of arguments, yield what they yield when
    the calls in them do. -/
theorem fix {body : (α → Reader β) → α → Reader β} {H : α → Prop}
    (h : ∀ self, (∀ a, H a → (self a).Yields Q) → ∀ a, H a → (body self a).Yields Q) {a : α} (ha : H a) :
    (Reader.fix body a).Yields Q := by
  intro c b c' hc hb
  refine fix_holds (R := fun a c r => H a → ∀ b c', c.Named → r = .ok (b, c') → c'.Named ∧ Q b) ?_ ?_
    a c ha b c' hc hb
  · rintro a c e - b c' - ⟨⟩
  · exact fun self hself a c ha => h self (fun a ha c => hself a c ha) a ha c

end Yields

theorem yields_span : span.Yields fun _ => True := Yields.get.bind fun _ _ => .pure trivial

theorem yields_atEnd : atEnd.Yields fun _ => True := Yields.get.bind fun _ _ => .pure trivial

theorem yields_isPunct (mark : String) : (isPunct mark).Yields fun _ => True :=
  Yields.get.bind fun _ _ => .pure trivial

theorem yields_next : next.Yields fun _ => True :=
  Yields.get.bind fun _ hc => (Yields.set hc.advance).bind fun _ _ => .pure trivial

theorem yields_eat (kind : Token.Kind) : (eat kind).Yields fun _ => True := by
  refine Yields.get.bind fun c hc => ?_
  split
  · exact (Yields.set hc.advance).bind fun _ _ => .pure trivial
  · exact .pure trivial

theorem yields_expectPunct (mark : String) : (expectPunct mark).Yields fun _ => True :=
  Yields.get.bind fun _ hc => (Yields.lift fun _ _ => trivial).bind fun _ _ => .set hc.advance

theorem yields_expectIdent : expectIdent.Yields fun r => IsName r.1 := by
  refine Yields.get.bind fun c hc => (Yields.lift (P := fun r => IsName r.1) fun r hr => ?_).bind
    fun _ hr => (Yields.set hc.advance).bind fun _ _ => .pure hr
  obtain ⟨rest, finish⟩ := c
  cases rest with
  | nil => cases hr
  | cons t ts =>
    obtain ⟨kind, span⟩ := t
    cases kind with
    | ident name =>
      cases hr
      exact hc _ (mem_cons_self ..) name rfl
    | _ => cases hr

end Reader

/-! ### Directives that are read -/

namespace Directive

open Reader

theorem yields_names : names.Yields fun names => ∀ name ∈ names, IsName name := by
  refine Yields.fix (H := fun read => ∀ name ∈ read, IsName name) (fun self hself read hread => ?_)
    (forall_mem_nil _)
  refine .bind yields_expectIdent fun r hname => ?_
  obtain ⟨name, span⟩ := r
  have hread' : ∀ n ∈ read ++ [name], IsName n :=
    forall_mem_append.2 ⟨hread, forall_mem_singleton.2 hname⟩
  refine (yields_eat (.punct ",")).bind fun b _ => ?_
  split
  · exact hself _ hread'
  · exact .pure hread'

theorem yields_nameList : nameList.Yields fun names => ∀ name ∈ names, IsName name := by
  refine (yields_isPunct ")").bind fun b _ => ?_
  split
  · exact .pure (forall_mem_nil _)
  · exact yields_names

theorem yields_slots : (slots ([], [])).Yields fun r => ∀ slot ∈ r, ∀ name ∈ slot, IsName name := by
  refine Yields.fix
    (H := fun read => (∀ slot ∈ read.1, ∀ name ∈ slot, IsName name) ∧ ∀ name ∈ read.2, IsName name)
    (fun self hself read hread => ?_) ⟨forall_mem_nil _, forall_mem_nil _⟩
  obtain ⟨done, slot⟩ := read
  obtain ⟨hdone, hslot⟩ := hread
  have hall := forall_mem_append.2 ⟨hdone, forall_mem_singleton.2 hslot⟩
  refine (yields_eat (.punct "]")).bind fun b _ => ?_
  split
  · exact .pure hall
  refine (yields_eat (.punct "|")).bind fun b _ => ?_
  split
  · exact hself _ ⟨hall, forall_mem_nil _⟩
  refine (yields_eat (.punct "||")).bind fun b _ => ?_
  split
  · refine hself _ ⟨forall_mem_append.2 ⟨hdone, forall_mem_cons.2 ⟨hslot, ?_⟩⟩, forall_mem_nil _⟩
    exact forall_mem_singleton.2 (forall_mem_nil _)
  refine .bind yields_expectIdent fun r hname => ?_
  obtain ⟨name, span⟩ := r
  have hmore := forall_mem_append.2 ⟨hslot, forall_mem_singleton.2 hname⟩
  refine Yields.get.bind fun c _ => (yields_eat (.punct ",")).bind fun b _ => ?_
  split
  · exact hself _ ⟨hdone, hmore⟩
  split
  · exact hself _ ⟨hdone, hmore⟩
  · exact .malformed _ _

theorem yields_paramBlock :
    paramBlock.Yields fun block => ∀ name ∈ block.ptrs ++ block.sets, IsName name := by
  refine (yields_expectPunct "[").bind fun _ _ => .bind yields_slots fun r hr => ?_
  split
  · exact .pure (by simpa [ParamBlock.sets] using hr)
  · exact .pure (by simpa [ParamBlock.sets, or_imp, forall_and] using hr)
  · exact .pure (by simpa [ParamBlock.sets, or_imp, forall_and] using hr)
  · exact .bind yields_span fun _ _ => .malformed _ _

theorem yields_checkArity (span : Span) (pred : Predicate) (block : ParamBlock) :
    (checkArity span pred block).Yields fun _ => block.Fits pred := by
  rw [checkArity]
  split
  · exact .pure ‹_›
  · exact .malformed _ _

theorem yields_inductiveArgs : inductiveArgs.Yields fun r =>
    IsName r.1 ∧ ∀ block ∈ r.2.2.2, ∀ name ∈ block.ptrs ++ block.sets, IsName name := by
  refine .bind yields_expectIdent fun var hvar => (yields_expectPunct ",").bind fun _ _ => ?_
  refine .bind yields_expectIdent fun r _ => ?_
  obtain ⟨var, varSpan⟩ := var
  obtain ⟨name, span⟩ := r
  dsimp only
  split
  · exact .malformed _ _
  refine (yields_eat (.punct ",")).bind fun b _ => ?_
  split
  · refine .bind yields_paramBlock fun block hblock => .pure ⟨hvar, ?_⟩
    rintro _ ⟨⟩
    exact hblock
  · refine .pure ⟨hvar, ?_⟩
    rintro _ ⟨⟩

theorem yields_inclusion : inclusion.Yields fun r => IsName r.1 ∧ IsName r.2 := by
  refine .bind yields_expectIdent fun sub hsub => .bind yields_next fun sign _ => ?_
  obtain ⟨sub, span⟩ := sub
  dsimp only
  split
  · refine (yields_eat (.ident "sub")).bind fun b _ => ?_
    split
    · exact .bind yields_expectIdent fun sup hsup => .pure ⟨hsub, hsup⟩
    · exact .malformed _ _
  · exact .malformed _ _

theorem yields_arguments (origin : Span) (keyword : String) : (arguments origin keyword).Yields Proper := by
  rw [arguments]
  split
  · exact .bind yields_nameList fun _ hnames => .pure hnames
  split
  · exact .bind yields_nameList fun _ hnames => .pure hnames
  split
  · exact .bind yields_inclusion fun r hr => .pure hr
  split
  · refine .bind yields_inductiveArgs fun r hr => ?_
    obtain ⟨var, pred, span, params⟩ := r
    refine (yields_checkArity _ _ _).bind fun _ hfits => .pure ⟨hr.1, ?_, hfits⟩
    cases params with
    | none => exact forall_mem_nil _
    | some block => exact hr.2 block rfl
  split
  · refine .bind yields_inductiveArgs fun r hr => ?_
    obtain ⟨var, pred, span, params⟩ := r
    cases params with
    | none =>
      refine .pure ⟨hr.1, ?_⟩
      rintro _ ⟨⟩
    | some block =>
      refine (yields_checkArity _ _ _).bind fun _ hfits => .pure ⟨hr.1, ?_⟩
      rintro _ ⟨⟩
      exact ⟨hr.2 block rfl, hfits⟩
  · exact .malformed _ _

theorem yields_whole (origin : Span) : (whole origin).Yields Proper := by
  refine .bind yields_expectIdent fun keyword _ => (yields_expectPunct "(").bind fun _ _ => ?_
  refine (yields_arguments origin keyword.1).bind fun d hd => (yields_expectPunct ")").bind fun _ _ => ?_
  refine .bind yields_atEnd fun b _ => ?_
  split
  · exact .pure hd
  · exact .bind yields_span fun _ _ => .malformed _ _

/-- Only directives that can be written are read. -/
theorem proper_of_parse {origin : Span} {text : String} {d : Directive} (h : parse origin text = .ok d) :
    d.Proper := by
  obtain ⟨ts, hts, h⟩ := ok_of_bind h
  obtain ⟨⟨d', c'⟩, hwhole, rfl⟩ := ok_of_map h
  exact (yields_whole origin _ d' c' (Tokens.named_of_scan hts) hwhole).2

/-- A directive is read from its own text, wherever that stands, exactly if its names are identifiers
    and its parameters fit. This is so for every directive that is read from any text at all. -/
theorem parse_text_iff_proper (origin : Span) (d : Directive) :
    (parse origin d.text = .ok d ↔ d.Proper) ∧
      ∀ origin' source, parse origin' source = .ok d → parse origin d.text = .ok d :=
  ⟨⟨proper_of_parse, fun hd => parse_text hd origin⟩, fun _ _ h => parse_text (proper_of_parse h) origin⟩

/-- The demand for a graph whose set parameters are both in the last slot. -/
def Sample.graphDemand : Directive := .checkInductive "g" .graph (some ⟨[], [], ["F", "_E2"]⟩)

theorem parse_graphDemand :
    Sample.graphDemand.text = "check_inductive(g, graphc, [ |  | F, _E2])" ∧ Sample.graphDemand.Proper ∧
      parse ⟨1, 1⟩ "check_inductive(g,graphc,[||F,_E2]) // two bars" = .ok Sample.graphDemand ∧
      parse ⟨7, 5⟩ Sample.graphDemand.text = .ok Sample.graphDemand := by
  have hsource :
      parse ⟨1, 1⟩ "check_inductive(g,graphc,[||F,_E2]) // two bars" = .ok Sample.graphDemand := by
    decide +kernel
  exact ⟨by decide, by decide, hsource, (parse_text_iff_proper ⟨7, 5⟩ _).2 _ _ hsource⟩

end Directive

end HeapShape
