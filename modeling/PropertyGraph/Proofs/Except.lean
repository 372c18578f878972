import Mathlib.Data.List.Forall2

/-! Computations that may fail, and what is known when they have not. -/

namespace PropertyGraph

variable {ε ε' α β : Type}

theorem ok_bind (a : α) (f : α → Except ε β) : (.ok a >>= f) = f a := rfl

theorem toOption_bind (x : Except ε α) (f : α → Except ε β) :
    (x >>= f).toOption = x.toOption.bind fun a => (f a).toOption := by
  cases x <;> rfl

theorem toOption_map (x : Except ε α) (f : α → β) : (x.map f).toOption = x.toOption.map f := by
  cases x <;> rfl

theorem bind_eq_ok_iff {x : Except ε α} {f : α → Except ε β} {b : β} :
    (x >>= f) = .ok b ↔ ∃ a, x = .ok a ∧ f a = .ok b := by
  cases x <;> simp [bind, Except.bind]

theorem mapError_eq_ok_iff {x : Except ε α} {f : ε → ε'} {a : α} :
    x.mapError f = .ok a ↔ x = .ok a := by
  constructor
  · intro h
    cases x with
    | error e => cases h
    | ok b =>
      cases h
      rfl
  · intro h
    subst h
    rfl

theorem map_congr_ok {x : Except ε α} {f g : α → β} (h : ∀ a, x = .ok a → f a = g a) :
    x.map f = x.map g := by
  cases x with
  | error e => rfl
  | ok a => exact congrArg Except.ok (h a rfl)

theorem foldlM_cons_eq_ok_iff {f : β → α → Except ε β} {a : α} {l : List α} {b c : β} :
    (a :: l).foldlM f b = .ok c ↔ ∃ d, f b a = .ok d ∧ l.foldlM f d = .ok c := by
  rw [List.foldlM_cons, bind_eq_ok_iff]

theorem forall₂_of_mapM_eq_some {f : α → Option β} {l : List α} {l' : List β}
    (h : l.mapM f = some l') : List.Forall₂ (fun a b => f a = some b) l l' := by
  induction l generalizing l' with
  | nil =>
    cases h
    exact .nil
  | cons a rest ih =>
    rw [List.mapM_cons] at h
    simp only [Option.bind_eq_bind, Option.bind_eq_some_iff] at h
    obtain ⟨b, hb, bs, hbs, h⟩ := h
    cases h
    exact .cons hb (ih hbs)

/-- What two relations tell about each item when the first leads away and the second back. -/
theorem forall_mem_of_forall₂ {p : α → β → Prop} {q : β → α → Prop} {l : List α} {l' : List β}
    (hp : List.Forall₂ p l l') (hq : List.Forall₂ q l' l) : ∀ a ∈ l, ∃ b, p a b ∧ q b a := by
  induction hp with
  | nil => nofun
  | cons hab _ ih =>
    obtain ⟨hba, hq⟩ := List.forall₂_cons.1 hq
    exact List.forall_mem_cons.2 ⟨⟨_, hab, hba⟩, ih hq⟩

/-- What every step of a fold keeps holds at its end. -/
theorem foldlM_keeps {p : β → Prop} {f : β → α → Except ε β}
    (hf : ∀ b a c, p b → f b a = .ok c → p c) {l : List α} {b c : β} (hb : p b)
    (h : l.foldlM f b = .ok c) : p c := by
  induction l generalizing b with
  | nil =>
    cases h
    exact hb
  | cons a rest ih =>
    obtain ⟨d, hd, hrest⟩ := foldlM_cons_eq_ok_iff.1 h
    exact ih (hf b a d hb hd) hrest

/-- A fold that adds to a list for every item goes through, and all of it is there in the
end. -/
theorem foldlM_appends {σ : Type} {f : σ → α → Except ε σ} {out : σ → List β} {g : α → List β}
    {l : List α} (hf : ∀ a ∈ l, ∀ s, ∃ t, f s a = .ok t ∧ out t = out s ++ g a) (s : σ) :
    ∃ t, l.foldlM f s = .ok t ∧ out t = out s ++ l.flatMap g := by
  induction l generalizing s with
  | nil => exact ⟨s, rfl, (List.append_nil _).symm⟩
  | cons a rest ih =>
    obtain ⟨ha, hrest⟩ := List.forall_mem_cons.1 hf
    obtain ⟨u, hu, hout⟩ := ha s
    obtain ⟨t, ht, htail⟩ := ih hrest u
    refine ⟨t, foldlM_cons_eq_ok_iff.2 ⟨u, hu, ht⟩, ?_⟩
    rw [htail, hout, List.flatMap_cons, List.append_assoc]

/-- A fold that goes through has taken over something for every item. -/
theorem foldlM_collected {σ : Type} {p : σ → List α → Prop} {r : β → α → Prop}
    {f : σ → β → Except ε σ}
    (hf : ∀ s l b t, p s l → f s b = .ok t → ∃ a, r b a ∧ p t (l ++ [a]))
    {s t : σ} {l : List α} {items : List β} (hp : p s l) (h : items.foldlM f s = .ok t) :
    ∃ added, List.Forall₂ r items added ∧ p t (l ++ added) := by
  induction items generalizing s l with
  | nil =>
    cases h
    exact ⟨[], .nil, by rwa [List.append_nil]⟩
  | cons b rest ih =>
    obtain ⟨u, hu, hrest⟩ := foldlM_cons_eq_ok_iff.1 h
    obtain ⟨a, ha, hpu⟩ := hf s l b u hp hu
    obtain ⟨added, hadded, hpt⟩ := ih hpu hrest
    exact ⟨a :: added, .cons ha hadded, by rwa [List.append_cons]⟩

/-- A fold that takes every item over as long as its key is new takes over items whose keys
are all different. -/
theorem foldlM_collect {σ κ : Type} {p : σ → List α → Prop} {f : σ → β → Except ε σ} {g : α → β}
    {key : α → κ} {added : List α}
    (hf : ∀ s l, ∀ a ∈ added, p s l → (∀ x ∈ l, key x ≠ key a) →
      ∃ t, f s (g a) = .ok t ∧ p t (l ++ [a]))
    {s : σ} {l : List α} (hp : p s l) (hkeys : ((l ++ added).map key).Nodup) :
    ∃ t, (added.map g).foldlM f s = .ok t ∧ p t (l ++ added) := by
  induction added generalizing s l with
  | nil => exact ⟨s, rfl, by rwa [List.append_nil]⟩
  | cons a rest ih =>
    have hnew : ∀ x ∈ l, key x ≠ key a := by
      rw [List.map_append] at hkeys
      exact fun x hx => (List.nodup_append.1 hkeys).2.2 _ (List.mem_map_of_mem hx) _ (by simp)
    obtain ⟨u, hu, hpu⟩ := hf s l a List.mem_cons_self hp hnew
    rw [List.append_cons] at hkeys ⊢
    obtain ⟨t, ht, hpt⟩ := ih (fun s l a ha => hf s l a (List.mem_cons_of_mem _ ha)) hpu hkeys
    exact ⟨t, foldlM_cons_eq_ok_iff.2 ⟨u, hu, ht⟩, hpt⟩

/-! ### Faults -/

/-- The computation fails with the fault if there is one; otherwise it gives a result, which
has the property. -/
structure Judged (x : Except ε α) (fault : Option ε) (p : α → Prop) : Prop where
  eq_error : ∀ e, fault = some e → x = .error e
  eq_ok : fault = none → ∃ a, x = .ok a ∧ p a

namespace Judged

variable {x : Except ε α} {fault : Option ε} {p : α → Prop}

theorem ok {a : α} (h : p a) : Judged (.ok a : Except ε α) none p := ⟨nofun, fun _ => ⟨a, rfl, h⟩⟩

theorem error (e : ε) : Judged (.error e : Except ε α) (some e) p :=
  ⟨fun _ h => congrArg _ (Option.some.inj h), nofun⟩

/-- A test that fails is a fault. -/
theorem test {c d : Prop} [Decidable c] [Decidable d] (e : ε) (hcd : c ↔ d)
    {p : Unit → Prop} (hp : ¬ d → p ()) :
    Judged (if c then .error e else .ok ()) (if d then some e else none) p := by
  by_cases h : c
  · rw [if_pos h, if_pos (hcd.1 h)]
    exact error e
  · rw [if_neg h, if_neg fun hd => h (hcd.2 hd)]
    exact ok (hp fun hd => h (hcd.2 hd))

theorem mono {q : α → Prop} (h : Judged x fault p) (hpq : ∀ a, p a → q a) : Judged x fault q where
  eq_error := h.eq_error
  eq_ok hnone := by
    obtain ⟨a, hx, ha⟩ := h.eq_ok hnone
    exact ⟨a, hx, hpq a ha⟩

/-- What is done next is judged by its own fault if nothing was wrong before. -/
theorem bind {f : α → Except ε β} {next : Option ε} {r : β → Prop} (h : Judged x fault p)
    (hf : ∀ a, p a → Judged (f a) next r) : Judged (x >>= f) (fault.or next) r := by
  cases fault with
  | some e =>
    rw [h.eq_error e rfl]
    exact error e
  | none =>
    obtain ⟨a, rfl, ha⟩ := h.eq_ok rfl
    rw [ok_bind, Option.none_or]
    exact hf a ha

theorem bind_ok {f : α → β} {r : β → Prop} (h : Judged x fault p) (hf : ∀ a, p a → r (f a)) :
    Judged (x >>= fun a => .ok (f a)) fault r := by
  rw [← Option.or_none (o := fault)]
  exact h.bind fun a ha => ok (hf a ha)

theorem map {f : α → β} {r : β → Prop} (h : Judged x fault p) (hf : ∀ a, p a → r (f a)) :
    Judged (x.map f) fault r where
  eq_error e he := by
    rw [h.eq_error e he]
    rfl
  eq_ok hnone := by
    obtain ⟨a, rfl, ha⟩ := h.eq_ok hnone
    exact ⟨f a, rfl, hf a ha⟩

theorem eq_ok_iff (h : Judged x fault p) : (∃ a, x = .ok a) ↔ fault = none := by
  constructor
  · rintro ⟨a, ha⟩
    cases hfault : fault with
    | none => rfl
    | some e => cases ha.symm.trans (h.eq_error e hfault)
  · intro hnone
    obtain ⟨a, ha, -⟩ := h.eq_ok hnone
    exact ⟨a, ha⟩

theorem eq_error_iff (h : Judged x fault p) {e : ε} : x = .error e ↔ fault = some e := by
  constructor
  · intro he
    cases hfault : fault with
    | none =>
      obtain ⟨a, ha, -⟩ := h.eq_ok hfault
      cases he.symm.trans ha
    | some e' =>
      cases he.symm.trans (h.eq_error e' hfault)
      rfl
  · exact h.eq_error e

theorem of_eq_ok (h : Judged x fault p) {a : α} (ha : x = .ok a) : p a := by
  obtain ⟨b, hb, hp⟩ := h.eq_ok (h.eq_ok_iff.1 ⟨a, ha⟩)
  cases ha.symm.trans hb
  exact hp

end Judged

/-- The fault of the first item that has one. What is wrong with an item may depend on the
keys before it. -/
def firstFault? {κ : Type} (fault : List κ → α → Option ε) (key : α → κ) (before : List κ) :
    List α → Option ε
  | [] => none
  | a :: rest => (fault before a).or (firstFault? fault key (before ++ [key a]) rest)

section

variable {κ σ : Type} {fault : List κ → α → Option ε} {key : α → κ}

theorem firstFault?_eq_some_iff {before : List κ} {l : List α} {e : ε} :
    firstFault? fault key before l = some e ↔ ∃ front a back, l = front ++ a :: back ∧
      firstFault? fault key before front = none ∧ fault (before ++ front.map key) a = some e := by
  induction l generalizing before with
  | nil => simp [firstFault?]
  | cons a rest ih =>
    rw [firstFault?, Option.or_eq_some_iff, ih]
    constructor
    · rintro (ha | ⟨ha, front, b, back, rfl, hfront, hb⟩)
      · exact ⟨[], a, rest, rfl, rfl, by rwa [List.map_nil, List.append_nil]⟩
      · refine ⟨a :: front, b, back, rfl, by rw [firstFault?, ha, hfront]; rfl, ?_⟩
        rwa [List.map_cons, List.append_cons]
    · rintro ⟨front, b, back, hl, hfront, hb⟩
      cases front with
      | nil =>
        cases hl
        rw [List.map_nil, List.append_nil] at hb
        exact .inl hb
      | cons c front =>
        cases hl
        rw [firstFault?, Option.or_eq_none_iff] at hfront
        rw [List.map_cons, List.append_cons] at hb
        exact .inr ⟨hfront.1, front, b, back, rfl, hfront.2, hb⟩

/-- If an item is right as long as it is good and its key is new, a list is right if all its
items are good and no key occurs twice. -/
theorem firstFault?_eq_none_iff {good : α → Prop}
    (hfault : ∀ before a, fault before a = none ↔ good a ∧ key a ∉ before) {before : List κ}
    {l : List α} (hbefore : before.Nodup) : firstFault? fault key before l = none ↔
      (∀ a ∈ l, good a) ∧ (before ++ l.map key).Nodup := by
  induction l generalizing before with
  | nil => simp [firstFault?, hbefore]
  | cons a rest ih =>
    rw [firstFault?, Option.or_eq_none_iff, hfault, List.forall_mem_cons, List.map_cons,
      List.append_cons before (key a) (rest.map key)]
    constructor
    · rintro ⟨⟨ha, hnew⟩, hrest⟩
      have hnodup : (before ++ [key a]).Nodup := by
        refine List.nodup_append.2 ⟨hbefore, by simp, fun x hx y hy => ?_⟩
        rw [List.mem_singleton.1 hy]
        rintro rfl
        exact hnew hx
      obtain ⟨hgood, hkeys⟩ := (ih hnodup).1 hrest
      exact ⟨⟨ha, hgood⟩, hkeys⟩
    · rintro ⟨⟨ha, hgood⟩, hkeys⟩
      have hnodup := (List.nodup_append.1 hkeys).1
      have hnew : key a ∉ before := fun hmem =>
        (List.nodup_append.1 hnodup).2.2 _ hmem _ List.mem_cons_self rfl
      exact ⟨⟨ha, hnew⟩, (ih hnodup).2 ⟨hgood, hkeys⟩⟩

/-- A fold is judged by the first fault, if each step is judged by the fault of its item. -/
theorem Judged.foldlM {f : σ → α → Except ε σ} {p : σ → List α → Prop} {l : List α}
    (hf : ∀ s done, ∀ a ∈ l, p s done →
      Judged (f s a) (fault (done.map key) a) fun t => p t (done ++ [a]))
    {s : σ} {done : List α} (hp : p s done) :
    Judged (l.foldlM f s) (firstFault? fault key (done.map key) l) fun t => p t (done ++ l) := by
  induction l generalizing s done with
  | nil => exact .ok (by rwa [List.append_nil])
  | cons a rest ih =>
    rw [List.foldlM_cons, firstFault?]
    refine (hf s done a List.mem_cons_self hp).bind fun t ht => ?_
    have hrest := ih (fun s done b hb => hf s done b (List.mem_cons_of_mem _ hb)) ht
    rwa [List.map_append, ← List.append_cons] at hrest

end

end PropertyGraph
