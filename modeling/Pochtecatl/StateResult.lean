import Mathlib.Init

namespace EStateM

variable {ε σ α β : Type}

/-- The state a computation ends in, whether it returned or failed. -/
def Result.state : Result ε σ α → σ
  | .ok _ s => s
  | .error _ s => s

@[simp] theorem Result.state_ok (a : α) (s : σ) : (Result.ok a s : Result ε σ α).state = s := rfl

@[simp] theorem Result.state_error (e : ε) (s : σ) :
    (Result.error e s : Result ε σ α).state = s := rfl

/-- The state of a computation that returned. -/
def Result.okState : Result ε σ α → Option σ
  | .ok _ s => some s
  | .error _ _ => none

theorem Result.okState_eq_some {r : Result ε σ Unit} {s : σ} : r.okState = some s ↔ r = .ok () s := by
  cases r with
  | ok u t => simp [okState]
  | error e t => simp [okState]

theorem bind_of_ok {x : EStateM ε σ α} {f : α → EStateM ε σ β} {s t : σ} {a : α}
    (h : x s = .ok a t) : (x >>= f) s = f a t := by
  change EStateM.bind x f s = _
  simp [EStateM.bind, h]

theorem bind_of_error {x : EStateM ε σ α} {f : α → EStateM ε σ β} {s t : σ} {e : ε}
    (h : x s = .error e t) : (x >>= f) s = .error e t := by
  change EStateM.bind x f s = _
  simp [EStateM.bind, h]

theorem bind_eq_ok {x : EStateM ε σ α} {f : α → EStateM ε σ β} {s s' : σ} {b : β} :
    (x >>= f) s = .ok b s' ↔ ∃ a t, x s = .ok a t ∧ f a t = .ok b s' := by
  cases h : x s with
  | ok a t =>
    rw [bind_of_ok h]
    constructor
    · exact fun hf => ⟨a, t, rfl, hf⟩
    · rintro ⟨a', t', he, hf⟩
      cases he
      exact hf
  | error e t => simp [bind_of_error h]

theorem bind_eq_error {x : EStateM ε σ α} {f : α → EStateM ε σ β} {s s' : σ} {e : ε} :
    (x >>= f) s = .error e s' ↔
      x s = .error e s' ∨ ∃ a t, x s = .ok a t ∧ f a t = .error e s' := by
  cases h : x s with
  | ok a t =>
    rw [bind_of_ok h]
    constructor
    · exact fun hf => Or.inr ⟨a, t, rfl, hf⟩
    · rintro (he | ⟨a', t', he, hf⟩)
      · cases he
      · cases he
        exact hf
  | error e' t => simp [bind_of_error h]

/-- A completed loop completed its rounds. -/
theorem forM_cons_eq_ok {f : α → EStateM ε σ PUnit} {a : α} {l : List α} {s s' : σ} {u : PUnit} :
    (a :: l).forM f s = .ok u s' ↔ ∃ t, f a s = .ok ⟨⟩ t ∧ l.forM f t = .ok u s' := by
  rw [List.forM_eq_forM, List.forM_cons, bind_eq_ok]
  constructor
  · rintro ⟨⟨⟩, t, hf, hrest⟩
    exact ⟨t, hf, hrest⟩
  · rintro ⟨t, hf, hrest⟩
    exact ⟨⟨⟩, t, hf, hrest⟩

/-- A loop that fails does so in one of its rounds. -/
theorem forM_eq_error {f : α → EStateM ε σ PUnit} {l : List α} {s s' : σ} {e : ε}
    (h : l.forM f s = .error e s') : ∃ done a rest t, l = done ++ a :: rest ∧
      done.forM f s = .ok ⟨⟩ t ∧ f a t = .error e s' := by
  induction l generalizing s with
  | nil => cases h
  | cons a l ih =>
    rw [List.forM_eq_forM, List.forM_cons, bind_eq_error] at h
    rcases h with h | ⟨⟨⟩, t, hf, hrest⟩
    · exact ⟨[], a, l, s, rfl, rfl, h⟩
    · obtain ⟨done, b, rest, t', rfl, hdone, hb⟩ := ih hrest
      exact ⟨a :: done, b, rest, t', rfl, forM_cons_eq_ok.mpr ⟨t, hf, hdone⟩, hb⟩

/-- Whatever the outcome, a state satisfying `I` is left in one satisfying `I`. -/
def Keeps (I : σ → Prop) (x : EStateM ε σ α) : Prop := ∀ s, I s → I (x s).state

section Keeps

variable {I : σ → Prop}

theorem state_bind {x : EStateM ε σ α} {f : α → EStateM ε σ β} {s : σ} (hx : I (x s).state)
    (hf : ∀ a, Keeps I (f a)) : I ((x >>= f) s).state := by
  cases hr : x s with
  | ok a t =>
    rw [hr] at hx
    rw [bind_of_ok hr]
    exact hf a t hx
  | error e t =>
    rw [hr] at hx
    rw [bind_of_error hr]
    exact hx

theorem Keeps.bind {x : EStateM ε σ α} {f : α → EStateM ε σ β} (hx : Keeps I x)
    (hf : ∀ a, Keeps I (f a)) : Keeps I (x >>= f) := fun s hs => state_bind (hx s hs) hf

theorem Keeps.pure (a : α) : Keeps I (Pure.pure a : EStateM ε σ α) := fun _ hs => hs

theorem Keeps.get : Keeps I (MonadState.get : EStateM ε σ σ) := fun _ hs => hs

theorem Keeps.modify {f : σ → σ} (h : ∀ s, I s → I (f s)) :
    Keeps I (modify f : EStateM ε σ PUnit) := fun s hs => h s hs

theorem Keeps.forM {f : α → EStateM ε σ PUnit} {l : List α} (h : ∀ a ∈ l, Keeps I (f a)) :
    Keeps I (l.forM f) := by
  induction l with
  | nil => exact fun _ hs => hs
  | cons a l ih =>
    rw [List.forM_eq_forM, List.forM_cons]
    exact (h a List.mem_cons_self).bind fun _ => ih fun b hb => h b (List.mem_cons_of_mem a hb)

end Keeps

/-- The computation never fails. -/
def Returns (x : EStateM ε σ α) : Prop := ∀ s, ∃ a t, x s = .ok a t

theorem Returns.bind {x : EStateM ε σ α} {f : α → EStateM ε σ β} (hx : Returns x)
    (hf : ∀ a, Returns (f a)) : Returns (x >>= f) := by
  intro s
  obtain ⟨a, t, ha⟩ := hx s
  obtain ⟨b, u, hb⟩ := hf a t
  exact ⟨b, u, bind_eq_ok.mpr ⟨a, t, ha, hb⟩⟩

theorem Returns.pure (a : α) : Returns (Pure.pure a : EStateM ε σ α) := fun s => ⟨a, s, rfl⟩

theorem Returns.get : Returns (MonadState.get : EStateM ε σ σ) := fun s => ⟨s, s, rfl⟩

theorem Returns.set (s : σ) : Returns (MonadStateOf.set s : EStateM ε σ PUnit) :=
  fun _ => ⟨⟨⟩, s, rfl⟩

theorem Returns.modify (f : σ → σ) : Returns (modify f : EStateM ε σ PUnit) :=
  fun s => ⟨⟨⟩, f s, rfl⟩

end EStateM
