import HeapShape.Token.Cursor

/-!
# What a reader takes

Rules for readers that go through: what they return, and which tokens they leave. They follow a
reader step by step, as it looks at the kinds of the tokens in front of it.

* `Reader.Takes`: a reader goes through in front of tokens of some kinds;
* `Reader.Takes.fix`: a reader that calls itself goes through if it does so with calls that do what it
  does itself in front of fewer tokens.
-/

namespace HeapShape.Reader

open List

variable {α β : Type} {m m' : Reader α} {f : α → Reader β} {P : α → Prop} {Q : β → Prop} {a : α}
  {k : Token.Kind} {ks ks₁ ks' : List Token.Kind} {mark name : String}

/-- In front of tokens of some kinds, a reader returns something with a property and leaves the last
    ones of them, which are of the kinds `ks'`. -/
def Takes (m : Reader α) (ks : List Token.Kind) (P : α → Prop) (ks' : List Token.Kind) : Prop :=
  ∀ toks finish, toks.map Token.kind = ks → ∃ a toks',
    m ⟨toks, finish⟩ = .ok (a, ⟨toks', finish⟩) ∧ P a ∧ toks' <:+ toks ∧ toks'.map Token.kind = ks'

namespace Takes

theorem pure (h : P a) : (Pure.pure a : Reader α).Takes ks P ks :=
  fun toks _ htoks => ⟨a, toks, rfl, h, suffix_refl toks, htoks⟩

theorem bind (hm : m.Takes ks P ks₁) (hf : ∀ a, P a → (f a).Takes ks₁ Q ks') :
    (m >>= f).Takes ks Q ks' := by
  intro toks finish htoks
  obtain ⟨a, toks₁, ha, hPa, hsuf, htoks₁⟩ := hm toks finish htoks
  obtain ⟨b, toks', hb, hQb, hsuf', htoks'⟩ := hf a hPa toks₁ finish htoks₁
  refine ⟨b, toks', ?_, hQb, hsuf'.trans hsuf, htoks'⟩
  show (m _ >>= fun r => f r.1 r.2) = _
  rw [ha]
  exact hb

/-- A reader that calls itself goes through if it does so with calls that do what it does itself, as
    long as fewer tokens are left. -/
theorem fix {body : (α → Reader β) → α → Reader β}
    (h : ∀ self : α → Reader β, (∀ a ks₁ Q ks₂, ks₁.length < ks.length →
      (Reader.fix body a).Takes ks₁ Q ks₂ → (self a).Takes ks₁ Q ks₂) → (body self a).Takes ks Q ks') :
    (Reader.fix body a).Takes ks Q ks' := by
  intro toks finish htoks
  rw [Reader.fix]
  refine h _ (fun a ks₁ Q ks₂ hlt hcall toks₁ finish₁ htoks₁ => ?_) toks finish htoks
  rw [if_pos (by rwa [← htoks, ← htoks₁, length_map, length_map] at hlt)]
  exact hcall toks₁ finish₁ htoks₁

/-- A reader looks at what is in front of it. -/
theorem look {f : Cursor → Reader β} (h : ∀ c : Cursor, c.rest.map Token.kind = ks → (f c).Takes ks Q ks') :
    (get >>= f).Takes ks Q ks' :=
  fun toks finish htoks => h ⟨toks, finish⟩ htoks toks finish htoks

/-- A reader reads a token and goes on. -/
theorem token {g : Token → Reader α} (hm : ∀ t ts finish, t.kind = k → m ⟨t :: ts, finish⟩ = g t ⟨ts, finish⟩)
    (h : ∀ t, t.kind = k → (g t).Takes ks P ks') : m.Takes (k :: ks) P ks' := by
  intro toks finish htoks
  obtain ⟨t, ts, rfl, ht, hts⟩ := map_eq_cons_iff.1 htoks
  obtain ⟨a, toks', ha, hPa, hsuf, htoks'⟩ := h t ht ts finish hts
  exact ⟨a, toks', (hm t ts finish ht).trans ha, hPa, hsuf.trans (suffix_cons t ts), htoks'⟩

theorem span {f : Span → Reader β} (h : ∀ s, (f s).Takes ks Q ks') : (Reader.span >>= f).Takes ks Q ks' :=
  look fun c _ => h c.span

theorem peek {f : Token → Reader β} (h : ∀ t, t.kind = k → (f t).Takes (k :: ks) Q ks') :
    (Reader.peek >>= f).Takes (k :: ks) Q ks' := by
  refine look fun c hc => h c.peek ?_
  obtain ⟨rest, finish⟩ := c
  obtain ⟨t, ts, rfl, ht, -⟩ := map_eq_cons_iff.1 hc
  exact ht

theorem peekAt {f : Token.Kind → Reader β} {n : Nat} (h : (f (ks[n]?.getD .eof)).Takes ks Q ks') :
    (Reader.peekAt n >>= f).Takes ks Q ks' := by
  refine look fun c hc => ?_
  rwa [Cursor.peekAt, ← getElem?_map, hc]

theorem next {f : Token → Reader β} (h : ∀ t, t.kind = k → (f t).Takes ks Q ks') :
    (Reader.next >>= f).Takes (k :: ks) Q ks' := token (fun _ _ _ _ => rfl) h

theorem expectIdent {f : String × Span → Reader β} (h : ∀ s, (f (name, s)).Takes ks Q ks') :
    (Reader.expectIdent >>= f).Takes (.ident name :: ks) Q ks' := by
  refine token (g := fun t => f (name, t.span)) ?_ fun t _ => h t.span
  rintro ⟨_, span⟩ ts finish ⟨⟩
  rfl

theorem expectPunct {f : Unit → Reader β} (h : (f ()).Takes ks Q ks') :
    (Reader.expectPunct mark >>= f).Takes (.punct mark :: ks) Q ks' := by
  refine token (g := fun _ => f ()) (fun t ts finish ht => ?_) fun _ _ => h
  show ((liftM (Cursor.expectPunct ⟨t :: ts, finish⟩ mark) >>= fun _ => set (Cursor.mk ts finish) : Reader Unit)
    >>= f) _ = _
  rw [Cursor.expectPunct, show Cursor.isPunct ⟨t :: ts, finish⟩ mark = true from decide_eq_true ht]
  rfl

/-! ### Branches -/

section

variable {test : Reader Bool}

theorem ifTrue (ht : test.Takes ks (· = true) ks₁) (h : m.Takes ks₁ P ks') :
    (test >>= fun b => if b = true then m else m').Takes ks P ks' := by
  refine ht.bind fun b hb => ?_
  rwa [if_pos hb]

theorem ifFalse (ht : test.Takes ks (· = false) ks) (h : m'.Takes ks P ks') :
    (test >>= fun b => if b = true then m else m').Takes ks P ks' := by
  refine ht.bind fun b hb => ?_
  rwa [if_neg (Bool.not_eq_true b ▸ hb)]

end

theorem atEnd (h : m.Takes [] P ks') :
    (Reader.atEnd >>= fun b => if b = true then m else m').Takes [] P ks' := by
  refine ifTrue (look fun c hc => .pure ?_) h
  obtain ⟨rest, finish⟩ := c
  obtain rfl := map_eq_nil_iff.1 hc
  rfl

theorem head?_ident_ne : (Token.Kind.ident name :: ks).head? ≠ some (.punct mark) := by
  rintro ⟨⟩

theorem head?_punct_ne {mark' : String} (h : mark ≠ mark') :
    (Token.Kind.punct mark :: ks).head? ≠ some (.punct mark') :=
  fun heq => h (Token.Kind.punct.inj (Option.some.inj heq))

theorem isPunct_of_kinds {c : Cursor} (hc : c.rest.map Token.kind = .punct mark :: ks) :
    c.isPunct mark = true := by
  obtain ⟨rest, finish⟩ := c
  obtain ⟨t, ts, rfl, ht, -⟩ := map_eq_cons_iff.1 hc
  exact decide_eq_true ht

theorem isPunct_of_ne {c : Cursor} (hc : c.rest.map Token.kind = ks) (hks : ks.head? ≠ some (.punct mark)) :
    c.isPunct mark = false := by
  obtain ⟨_ | ⟨t, ts⟩, finish⟩ := c
  · rfl
  · subst hc
    exact decide_eq_false fun h => hks (congrArg some h)

theorem isPunct (h : m.Takes (.punct mark :: ks) P ks') :
    (Reader.isPunct mark >>= fun b => if b = true then m else m').Takes (.punct mark :: ks) P ks' :=
  ifTrue (look fun _ hc => .pure (isPunct_of_kinds hc)) h

theorem not_isPunct (hks : ks.head? ≠ some (.punct mark)) (h : m'.Takes ks P ks') :
    (Reader.isPunct mark >>= fun b => if b = true then m else m').Takes ks P ks' :=
  ifFalse (look fun _ hc => .pure (isPunct_of_ne hc hks)) h

theorem eat (h : m.Takes ks P ks') :
    (Reader.eat k >>= fun b => if b = true then m else m').Takes (k :: ks) P ks' := by
  refine ifTrue (token (g := fun _ => Pure.pure true) (fun t ts finish ht => ?_) fun _ _ => .pure rfl) h
  show (if t.kind = k then _ else _ : Reader Bool) _ = _
  rw [if_pos ht]
  rfl

theorem not_eatPunct (hks : ks.head? ≠ some (.punct mark)) (h : m'.Takes ks P ks') :
    (Reader.eatPunct mark >>= fun b => if b = true then m else m').Takes ks P ks' := by
  refine ifFalse (look fun c hc => ?_) h
  rw [if_neg (of_decide_eq_false (isPunct_of_ne hc hks))]
  exact .pure rfl

end Takes

end HeapShape.Reader
