import HeapShape.Reach

/-!
# The search along edges finds what they lead to

A search breadth first meets exactly the points that the edges lead to, each of them once.

* `Reach.mem_closure`: the points that are met;
* `Reach.nodup_closure`: none of them is met twice;
* `Reach.closure_map`: a renaming that carries the edges of all points that are met along
  carries the whole search along.
-/

namespace HeapShape.Reach

open List

variable {α β : Type} {edges : List (α × α)} {a b c : α}

/-! ### Ways along edges -/

namespace Leads

theorem trans (hab : Leads edges a b) (hbc : Leads edges b c) : Leads edges a c := by
  induction hbc with
  | refl => exact hab
  | step _ he ih => exact .step ih he

theorem single (h : (a, b) ∈ edges) : Leads edges a b := .step (.refl a) h

/-- The first edge of a way, if it has one. -/
theorem cases_head (h : Leads edges a c) : a = c ∨ ∃ b, (a, b) ∈ edges ∧ Leads edges b c := by
  induction h with
  | refl => exact .inl rfl
  | @step b c _ he ih =>
    right
    rcases ih with rfl | ⟨d, had, hdb⟩
    · exact ⟨c, he, .refl c⟩
    · exact ⟨d, had, .step hdb he⟩

/-- A way goes along under a map of its points that carries edges to ways. -/
theorem map {edges' : List (β × β)} {f : α → β}
    (hf : ∀ x y, (x, y) ∈ edges → Leads edges' (f x) (f y)) (h : Leads edges a b) :
    Leads edges' (f a) (f b) := by
  induction h with
  | refl => exact .refl _
  | step _ he ih => exact ih.trans (hf _ _ he)

theorem mono {edges' : List (α × α)} (hsub : edges ⊆ edges') (h : Leads edges a b) :
    Leads edges' a b :=
  h.map (f := id) fun _ _ he => .single (hsub he)

end Leads

variable {seen waiting start : List α}

/-- All edges from points that were seen lead to points that were seen or wait. -/
def Pending (edges : List (α × α)) (waiting seen : List α) : Prop :=
  ∀ a b, a ∈ seen → (a, b) ∈ edges → b ∈ seen ∨ b ∈ waiting

/-- A way from a point that was seen ends at one, or goes through a point that waits. -/
theorem Pending.leads (hp : Pending edges waiting seen) (ha : a ∈ seen) (h : Leads edges a c) :
    c ∈ seen ∨ ∃ b ∈ waiting, Leads edges b c := by
  induction h with
  | refl => exact .inl ha
  | @step b c _ he ih =>
    rcases ih with hb | ⟨d, hd, hdb⟩
    · exact (hp b c hb he).imp_right fun hc => ⟨c, hc, .refl c⟩
    · exact .inr ⟨d, hd, .step hdb he⟩

/-! ### The search -/

variable [DecidableEq α] [DecidableEq β]

theorem mem_next : b ∈ next edges a ↔ (a, b) ∈ edges := by
  simp only [next, mem_filterMap]
  constructor
  · rintro ⟨⟨x, y⟩, hmem, hxy⟩
    split at hxy
    · rename_i hxa
      cases hxy
      exact hxa ▸ hmem
    · cases hxy
  · intro h
    exact ⟨(a, b), h, if_pos rfl⟩

theorem mem_visit (hp : Pending edges waiting seen) :
    c ∈ visit edges waiting seen ↔ c ∈ seen ∨ ∃ a ∈ waiting, Leads edges a c := by
  induction waiting, seen using visit.induct edges with
  | case1 seen => simp [visit]
  | case2 a waiting seen ha ih =>
    rw [visit, if_pos ha, ih]
    · constructor
      · exact Or.imp_right fun ⟨b, hb, hbc⟩ => ⟨b, .tail _ hb, hbc⟩
      · rintro (hc | ⟨b, hb, hbc⟩)
        · exact .inl hc
        · rcases mem_cons.1 hb with rfl | hb
          · -- What the seen point leads to goes through a point that waits, maybe itself.
            refine Pending.leads (fun x y hx hxy => ?_) ha hbc
            rcases hp x y hx hxy with hy | hy
            · exact .inl hy
            · rcases mem_cons.1 hy with rfl | hy
              · exact .inl ha
              · exact .inr hy
          · exact .inr ⟨b, hb, hbc⟩
    · intro x y hx hxy
      rcases hp x y hx hxy with hy | hy
      · exact .inl hy
      · rcases mem_cons.1 hy with rfl | hy
        · exact .inl ha
        · exact .inr hy
  | case3 a waiting seen ha ih =>
    rw [visit, if_neg ha, ih]
    · constructor
      · rintro (hc | ⟨b, hb, hbc⟩)
        · rcases mem_append.1 hc with hc | hc
          · exact .inl hc
          · rw [mem_singleton.1 hc]
            exact .inr ⟨a, .head _, .refl a⟩
        · rcases mem_append.1 hb with hb | hb
          · exact .inr ⟨b, .tail _ hb, hbc⟩
          · exact .inr ⟨a, .head _, (Leads.single (mem_next.1 hb)).trans hbc⟩
      · rintro (hc | ⟨b, hb, hbc⟩)
        · exact .inl (mem_append_left _ hc)
        · rcases mem_cons.1 hb with rfl | hb
          · rcases hbc.cases_head with rfl | ⟨d, hbd, hdc⟩
            · exact .inl (mem_append_right _ (mem_singleton_self _))
            · exact .inr ⟨d, mem_append_right _ (mem_next.2 hbd), hdc⟩
          · exact .inr ⟨b, mem_append_left _ hb, hbc⟩
    · intro x y hx hxy
      rcases mem_append.1 hx with hx | hx
      · rcases hp x y hx hxy with hy | hy
        · exact .inl (mem_append_left _ hy)
        · rcases mem_cons.1 hy with rfl | hy
          · exact .inl (mem_append_right _ (mem_singleton_self _))
          · exact .inr (mem_append_left _ hy)
      · rw [mem_singleton.1 hx] at hxy
        exact .inr (mem_append_right _ (mem_next.2 hxy))

/-- The search meets what the edges lead to. -/
theorem mem_closure : c ∈ closure edges start ↔ ∃ a ∈ start, Leads edges a c := by
  rw [closure, mem_visit fun _ _ ha => absurd ha not_mem_nil]
  simp only [not_mem_nil, false_or]

theorem nodup_visit (h : seen.Nodup) : (visit edges waiting seen).Nodup := by
  induction waiting, seen using visit.induct edges with
  | case1 seen => rwa [visit]
  | case2 a waiting seen ha ih =>
    rw [visit, if_pos ha]
    exact ih h
  | case3 a waiting seen ha ih =>
    rw [visit, if_neg ha]
    refine ih (nodup_append.2 ⟨h, by simp, ?_⟩)
    rintro x hx y hy rfl
    exact ha (mem_singleton.1 hy ▸ hx)

/-- No point is met twice. -/
theorem nodup_closure : (closure edges start).Nodup := nodup_visit .nil

/-! ### Renaming -/

theorem visit_map {edges' : List (β × β)} {f : α → β} {P : α → Prop}
    (hinj : ∀ x y, P x → P y → f x = f y → x = y)
    (hnext : ∀ x, P x → next edges' (f x) = (next edges x).map f)
    (hclosed : ∀ x y, P x → (x, y) ∈ edges → P y)
    (hw : ∀ x ∈ waiting, P x) (hs : ∀ x ∈ seen, P x) :
    visit edges' (waiting.map f) (seen.map f) = (visit edges waiting seen).map f := by
  induction waiting, seen using visit.induct edges with
  | case1 seen => rw [map_nil, visit, visit]
  | case2 a waiting seen ha ih =>
    rw [map_cons, visit, if_pos (mem_map_of_mem ha), visit, if_pos ha]
    exact ih (fun x hx => hw x (.tail _ hx)) hs
  | case3 a waiting seen ha ih =>
    have hPa : P a := hw a (.head _)
    have hfa : f a ∉ seen.map f := by
      intro hmem
      obtain ⟨x, hx, hxa⟩ := mem_map.1 hmem
      exact ha (hinj x a (hs x hx) hPa hxa ▸ hx)
    rw [map_cons, visit, if_neg hfa, visit, if_neg ha, hnext a hPa, ← map_append,
      ← map_singleton, ← map_append]
    refine ih (fun x hx => ?_) fun x hx => ?_
    · rcases mem_append.1 hx with hx | hx
      · exact hw x (.tail _ hx)
      · exact hclosed a x hPa (mem_next.1 hx)
    · rcases mem_append.1 hx with hx | hx
      · exact hs x hx
      · exact mem_singleton.1 hx ▸ hPa

/-- A renaming of the points that are met, under which they have the same edges in the same
    order, renames the search. -/
theorem closure_map {edges' : List (β × β)} {f : α → β}
    (hinj : ∀ x y, x ∈ closure edges start → y ∈ closure edges start → f x = f y → x = y)
    (hnext : ∀ x ∈ closure edges start, next edges' (f x) = (next edges x).map f) :
    closure edges' (start.map f) = (closure edges start).map f := by
  show visit edges' (start.map f) (List.map f []) = (visit edges start []).map f
  refine visit_map (P := (· ∈ closure edges start)) hinj hnext ?_ ?_ ?_
  · intro x y hx hxy
    obtain ⟨a, ha, hax⟩ := mem_closure.1 hx
    exact mem_closure.2 ⟨a, ha, .step hax hxy⟩
  · exact fun x hx => mem_closure.2 ⟨x, hx, .refl x⟩
  · exact fun x hx => absurd hx not_mem_nil

end HeapShape.Reach
