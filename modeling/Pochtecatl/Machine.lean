import Mathlib.Data.List.Forall2

/-- A machine takes a labelled step or refuses it. -/
structure Machine (σ α : Type) where
  step : σ → α → Option σ

namespace Machine

variable {σ α : Type} {M : Machine σ α}

/-- The state after performing the labels in order, if none is refused. -/
def run (M : Machine σ α) : σ → List α → Option σ
  | s, [] => some s
  | s, a :: as => (M.step s a).bind fun s' => M.run s' as

@[simp] theorem run_nil (s : σ) : M.run s [] = some s := rfl

theorem run_cons_eq_some {s s' : σ} {a : α} {as : List α} :
    M.run s (a :: as) = some s' ↔ ∃ t, M.step s a = some t ∧ M.run t as = some s' :=
  Option.bind_eq_some_iff

theorem run_append (s : σ) (as bs : List α) :
    M.run s (as ++ bs) = (M.run s as).bind fun t => M.run t bs := by
  induction as generalizing s with
  | nil => rfl
  | cons a as ih =>
    simp only [List.cons_append, run]
    cases h : M.step s a with
    | none => rfl
    | some t => simpa using ih t

theorem run_append_eq_some {s s' : σ} {as bs : List α} :
    M.run s (as ++ bs) = some s' ↔ ∃ t, M.run s as = some t ∧ M.run t bs = some s' := by
  rw [run_append]
  exact Option.bind_eq_some_iff

/-- A property that every step preserves holds at the end of every run. -/
theorem run_invariant {I : σ → Prop} (hstep : ∀ s a s', I s → M.step s a = some s' → I s')
    {s s' : σ} {as : List α} (h : M.run s as = some s') (hs : I s) : I s' := by
  induction as generalizing s with
  | nil => exact Option.some.inj h ▸ hs
  | cons a as ih =>
    obtain ⟨t, ht, hr⟩ := run_cons_eq_some.mp h
    exact ih hr (hstep s a t hs ht)

/-- Every step taken from `s` along the labels satisfies `P`. -/
def Along (M : Machine σ α) (P : σ → α → σ → Prop) : σ → List α → Prop
  | _, [] => True
  | s, a :: as => ∀ s', M.step s a = some s' → P s a s' ∧ M.Along P s' as

instance decidableAlong {P : σ → α → σ → Prop} [∀ s a s', Decidable (P s a s')] (s : σ)
    (as : List α) : Decidable (M.Along P s as) :=
  match as with
  | [] => isTrue trivial
  | a :: as => match h : M.step s a with
    | none => isTrue fun t ht => by cases h.symm.trans ht
    | some t =>
      have : Decidable (M.Along P t as) := decidableAlong t as
      decidable_of_iff (P s a t ∧ M.Along P t as)
        ⟨fun hp u hu => by cases h.symm.trans hu; exact hp, fun hp => hp t h⟩

theorem along_of_append {P : σ → α → σ → Prop} {s : σ} {as bs : List α}
    (h : M.Along P s (as ++ bs)) : M.Along P s as := by
  induction as generalizing s with
  | nil => trivial
  | cons a as ih =>
    intro s' hs
    obtain ⟨hp, hps⟩ := h s' hs
    exact ⟨hp, ih hps⟩

/-- Every state visited from `s` along the labels satisfies `Q`. -/
def Throughout (M : Machine σ α) (Q : σ → Prop) : σ → List α → Prop
  | s, [] => Q s
  | s, a :: as => Q s ∧ ∀ s', M.step s a = some s' → M.Throughout Q s' as

theorem along_of_forall {P : σ → α → σ → Prop} {s : σ} {as : List α}
    (h : ∀ a ∈ as, ∀ s s', P s a s') : M.Along P s as := by
  induction as generalizing s with
  | nil => trivial
  | cons a as ih =>
    exact fun s' _ => ⟨h a List.mem_cons_self s s', ih fun b hb => h b (List.mem_cons_of_mem _ hb)⟩

theorem along_imp {P Q : σ → α → σ → Prop} (hpq : ∀ s a s', P s a s' → Q s a s') {s : σ}
    {as : List α} (h : M.Along P s as) : M.Along Q s as := by
  induction as generalizing s with
  | nil => trivial
  | cons a as ih =>
    intro s' hs
    obtain ⟨hp, hps⟩ := h s' hs
    exact ⟨hpq s a s' hp, ih hps⟩

theorem along_and {P Q : σ → α → σ → Prop} {s : σ} {as : List α} (hp : M.Along P s as)
    (hq : M.Along Q s as) : M.Along (fun s a s' => P s a s' ∧ Q s a s') s as := by
  induction as generalizing s with
  | nil => trivial
  | cons a as ih =>
    intro s' hs
    obtain ⟨hp, hps⟩ := hp s' hs
    obtain ⟨hq, hqs⟩ := hq s' hs
    exact ⟨⟨hp, hq⟩, ih hps hqs⟩

theorem throughout_head {Q : σ → Prop} {s : σ} {as : List α} (h : M.Throughout Q s as) : Q s := by
  cases as with
  | nil => exact h
  | cons a as => exact h.1

theorem run_throughout {Q : σ → Prop} {s s' : σ} {as : List α} (h : M.Throughout Q s as)
    (hr : M.run s as = some s') : Q s' := by
  induction as generalizing s with
  | nil => exact Option.some.inj hr ▸ h
  | cons a as ih =>
    obtain ⟨t, ht, hr⟩ := run_cons_eq_some.mp hr
    exact ih (h.2 t ht) hr

theorem throughout_of_invariant {I Q : σ → Prop} (hQ : ∀ s, I s → Q s)
    (hstep : ∀ s a s', I s → M.step s a = some s' → I s') {s : σ} {as : List α} (hs : I s) :
    M.Throughout Q s as := by
  induction as generalizing s with
  | nil => exact hQ s hs
  | cons a as ih => exact ⟨hQ s hs, fun t ht => ih (hstep s a t hs ht)⟩

/-- The machine that refuses the steps into states outside `p`. -/
def restrict (M : Machine σ α) (p : σ → Bool) : Machine σ α :=
  ⟨fun s a => (M.step s a).filter p⟩

theorem restrict_step_eq_some {p : σ → Bool} {s s' : σ} {a : α} :
    (M.restrict p).step s a = some s' ↔ M.step s a = some s' ∧ p s' :=
  Option.filter_eq_some_iff

/-- A run of the restricted machine is a run whose steps all end inside `p`. -/
theorem run_of_restrict {p : σ → Bool} {s s' : σ} {as : List α}
    (h : (M.restrict p).run s as = some s') :
    M.run s as = some s' ∧ M.Along (fun s a s' => M.step s a = some s' ∧ p s') s as := by
  induction as generalizing s with
  | nil => exact ⟨h, trivial⟩
  | cons a as ih =>
    obtain ⟨t, ht, hr⟩ := run_cons_eq_some.mp h
    obtain ⟨hstep, hp⟩ := restrict_step_eq_some.mp ht
    obtain ⟨hrun, halong⟩ := ih hr
    refine ⟨run_cons_eq_some.mpr ⟨t, hstep, hrun⟩, fun u hu => ?_⟩
    cases hstep.symm.trans hu
    exact ⟨⟨hstep, hp⟩, halong⟩

section Conditional

variable {I Q : σ → Prop} {P : σ → α → σ → Prop}

/-- An invariant of the steps that satisfy `P` holds at the end of every run
made of such steps. -/
theorem run_invariant_along (hstep : ∀ s a s', I s → M.step s a = some s' → P s a s' → I s')
    {s s' : σ} {as : List α} (hp : M.Along P s as) (h : M.run s as = some s') (hs : I s) :
    I s' := by
  induction as generalizing s with
  | nil => exact Option.some.inj h ▸ hs
  | cons a as ih =>
    obtain ⟨t, ht, hr⟩ := run_cons_eq_some.mp h
    obtain ⟨hpt, hrest⟩ := hp t ht
    exact ih hrest hr (hstep s a t hs ht hpt)

/-- A machine that matches the steps of another one, up to a relation of the states, matches its
runs. -/
theorem run_simulated {τ : Type} {N : Machine τ α} {R : σ → τ → Prop}
    (hstep : ∀ s t a s', R s t → M.step s a = some s' → P s a s' →
      ∃ t', N.step t a = some t' ∧ R s' t')
    {s s' : σ} {t : τ} {as : List α} (hp : M.Along P s as) (h : M.run s as = some s') (hR : R s t) :
    ∃ t', N.run t as = some t' ∧ R s' t' := by
  induction as generalizing s t with
  | nil =>
    cases h
    exact ⟨t, rfl, hR⟩
  | cons a as ih =>
    obtain ⟨u, hu, hr⟩ := run_cons_eq_some.mp h
    obtain ⟨hpu, hrest⟩ := hp u hu
    obtain ⟨v, hv, hR'⟩ := hstep s t a u hR hu hpu
    obtain ⟨t', hrun, hR''⟩ := ih hrest hr hR'
    exact ⟨t', run_cons_eq_some.mpr ⟨v, hv, hrun⟩, hR''⟩

/-- A relation that steps with related labels preserve holds at the end of two runs. -/
theorem run_related {R : σ → σ → Prop} {E : α → α → Prop}
    (hstep : ∀ s t a b s' t', R s t → E a b → M.step s a = some s' → M.step t b = some t' →
      P s a s' → P t b t' → R s' t')
    {s t s' t' : σ} {as bs : List α} (hlabels : List.Forall₂ E as bs) (hp : M.Along P s as)
    (hq : M.Along P t bs) (hs : M.run s as = some s') (ht : M.run t bs = some t') (h : R s t) :
    R s' t' := by
  induction hlabels generalizing s t with
  | nil =>
    cases hs
    cases ht
    exact h
  | cons hab _ ih =>
    obtain ⟨u, hu, hs⟩ := run_cons_eq_some.mp hs
    obtain ⟨v, hv, ht⟩ := run_cons_eq_some.mp ht
    obtain ⟨hpu, hp⟩ := hp u hu
    obtain ⟨hqv, hq⟩ := hq v hv
    exact ih hp hq hs ht (hstep _ _ _ _ u v h hab hu hv hpu hqv)

/-- A relation that related labels preserve when the steps of the first run satisfy `P`. -/
theorem run_related_left {R : σ → σ → Prop} {E : α → α → Prop}
    (hstep : ∀ s t a b s' t', R s t → E a b → M.step s a = some s' → M.step t b = some t' →
      P s a s' → R s' t')
    {s t s' t' : σ} {as bs : List α} (hlabels : List.Forall₂ E as bs) (hp : M.Along P s as)
    (hs : M.run s as = some s') (ht : M.run t bs = some t') (h : R s t) : R s' t' := by
  induction hlabels generalizing s t with
  | nil =>
    cases hs
    cases ht
    exact h
  | cons hab _ ih =>
    obtain ⟨u, hu, hs⟩ := run_cons_eq_some.mp hs
    obtain ⟨v, hv, ht⟩ := run_cons_eq_some.mp ht
    obtain ⟨hpu, hp⟩ := hp u hu
    exact ih hp hs ht (hstep _ _ _ _ u v h hab hu hv hpu)

/-- An invariant of the state and of the labels that led to it. -/
theorem run_history {I : List α → σ → Prop}
    (hstep : ∀ before s a s', I before s → M.step s a = some s' → P s a s' → I (before ++ [a]) s')
    {s s' : σ} {as : List α} (hp : M.Along P s as) (h : M.run s as = some s') (hs : I [] s) :
    I as s' := by
  have hfrom : ∀ (as before : List α) (s : σ), M.Along P s as → M.run s as = some s' →
      I before s → I (before ++ as) s' := by
    intro as
    induction as with
    | nil =>
      intro before s _ h hs
      cases h
      rwa [List.append_nil]
    | cons a as ih =>
      intro before s hp h hs
      obtain ⟨t, ht, hr⟩ := run_cons_eq_some.mp h
      obtain ⟨hpt, hrest⟩ := hp t ht
      rw [List.append_cons]
      exact ih _ t hrest hr (hstep before s a t hs ht hpt)
  exact hfrom as [] s hp h hs

/-- The steps of an invariant along labels that satisfy `Q`. -/
theorem along_of_invariant {Q : σ → α → σ → Prop}
    (hstep : ∀ s a s', I s → M.step s a = some s' → Q s a s' → I s' ∧ P s a s')
    {s : σ} {as : List α} (hq : M.Along Q s as) (hs : I s) : M.Along P s as := by
  induction as generalizing s with
  | nil => trivial
  | cons a as ih =>
    intro t ht
    obtain ⟨hqt, hrest⟩ := hq t ht
    obtain ⟨hI, hp⟩ := hstep s a t hs ht hqt
    exact ⟨hp, ih hrest hI⟩

theorem throughout_of_along (hQ : ∀ s, I s → Q s)
    (hstep : ∀ s a s', I s → M.step s a = some s' → P s a s' → I s')
    {s : σ} {as : List α} (hp : M.Along P s as) (hs : I s) : M.Throughout Q s as := by
  induction as generalizing s with
  | nil => exact hQ s hs
  | cons a as ih =>
    refine ⟨hQ s hs, fun t ht => ?_⟩
    obtain ⟨hpt, hrest⟩ := hp t ht
    exact ih hrest (hstep s a t hs ht hpt)

/-- When a step outside `P` always leaves `Q`, the runs that stay in `Q` are
exactly those whose steps satisfy `P`. -/
theorem throughout_iff_along (hQ : ∀ s, I s → Q s)
    (hstep : ∀ s a s', I s → M.step s a = some s' → P s a s' → I s')
    (hbreak : ∀ s a s', I s → M.step s a = some s' → ¬P s a s' → ¬Q s')
    {s : σ} {as : List α} (hs : I s) : M.Throughout Q s as ↔ M.Along P s as := by
  refine ⟨fun h => ?_, fun h => throughout_of_along hQ hstep h hs⟩
  induction as generalizing s with
  | nil => trivial
  | cons a as ih =>
    intro t ht
    have hq : Q t := throughout_head (h.2 t ht)
    have hpt : P s a t := Classical.byContradiction fun hn => hbreak s a t hs ht hn hq
    exact ⟨hpt, ih (hstep s a t hs ht hpt) (h.2 t ht)⟩

end Conditional

section Progress

variable {I Q : σ → Prop} {P : σ → α → σ → Prop} {m : σ → Nat}

/-- Every run made of steps that satisfy `P` is finite, and can go on as long as it is not in
`Q`. -/
inductive Inevitably (M : Machine σ α) (P : σ → α → σ → Prop) (Q : σ → Prop) : σ → Prop where
  | done {s : σ} (h : Q s) : M.Inevitably P Q s
  | later {s : σ} (hstep : ∃ a s', M.step s a = some s' ∧ P s a s')
    (hrest : ∀ a s', M.step s a = some s' → P s a s' → M.Inevitably P Q s') : M.Inevitably P Q s

theorem Inevitably.mono {Q' : σ → Prop} (hQ : ∀ s, Q s → Q' s) {s : σ} (h : M.Inevitably P Q s) :
    M.Inevitably P Q' s := by
  induction h with
  | done h => exact .done (hQ _ h)
  | later hstep _ ih => exact .later hstep ih

/-- What is inevitable happens on some run of such steps. -/
theorem Inevitably.exists_run {s : σ} (h : M.Inevitably P Q s) :
    ∃ as s', M.run s as = some s' ∧ M.Along P s as ∧ Q s' := by
  induction h with
  | @done s h => exact ⟨[], s, rfl, trivial, h⟩
  | later hstep _ ih =>
    obtain ⟨a, t, ht, hp⟩ := hstep
    obtain ⟨as, s', hrun, halong, hs'⟩ := ih a t ht hp
    refine ⟨a :: as, s', run_cons_eq_some.mpr ⟨t, ht, hrun⟩, fun u hu => ?_, hs'⟩
    cases ht.symm.trans hu
    exact ⟨hp, halong⟩

/-- A measure that every step lowers bounds the length of the runs. -/
theorem run_length_le
    (hstep : ∀ s a s', I s → M.step s a = some s' → P s a s' → I s' ∧ m s' < m s)
    {s s' : σ} {as : List α} (hp : M.Along P s as) (h : M.run s as = some s') (hs : I s) :
    as.length + m s' ≤ m s := by
  induction as generalizing s with
  | nil =>
    cases h
    exact Nat.le_of_eq (Nat.zero_add _)
  | cons a as ih =>
    obtain ⟨t, ht, hr⟩ := run_cons_eq_some.mp h
    obtain ⟨hpt, hrest⟩ := hp t ht
    obtain ⟨hI, hlt⟩ := hstep s a t hs ht hpt
    have hle := ih hrest hr hI
    rw [List.length_cons]
    omega

/-- When every step lowers a measure, a state from which some step leads on is inevitably left
until `Q` holds. -/
theorem inevitably_of_measure
    (hstep : ∀ s a s', I s → M.step s a = some s' → P s a s' → I s' ∧ m s' < m s)
    (hprogress : ∀ s, I s → ¬Q s → ∃ a s', M.step s a = some s' ∧ P s a s') {s : σ} (hs : I s) :
    M.Inevitably P Q s := by
  induction hm : m s using Nat.strongRecOn generalizing s with
  | ind n ih =>
    by_cases hq : Q s
    · exact .done hq
    · refine .later (hprogress s hs hq) fun a s' ht hp => ?_
      obtain ⟨hI, hlt⟩ := hstep s a s' hs ht hp
      exact ih (m s') (hm ▸ hlt) hI rfl

end Progress

end Machine
