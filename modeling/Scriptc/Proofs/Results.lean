import Scriptc.Code.Fault

/-!
# Results of computations

A computation that may fail succeeds exactly if each of its steps does. For computations on a state,
`Runs` says that one succeeds and what is true afterwards.
-/

namespace Scriptc

theorem lt_size {α : Type} {xs : Array α} {i : Nat} {a : α} (found : xs[i]? = some a) :
    i < xs.size :=
  (Array.getElem?_eq_some_iff.mp found).1

namespace Result

variable {ε σ α β : Type}

theorem bind_eq_ok {first : Except ε α} {next : α → Except ε β} {b : β} :
    (first >>= next) = .ok b ↔ ∃ a, first = .ok a ∧ next a = .ok b := by
  cases first with
  | error | ok => simp [bind, Except.bind]

theorem map_eq_ok {change : α → β} {first : Except ε α} {b : β} :
    change <$> first = .ok b ↔ ∃ a, first = .ok a ∧ change a = b := by
  cases first with
  | error | ok => simp [Functor.map, Except.map]

theorem pure_eq_ok {a b : α} : (pure a : Except ε α) = .ok b ↔ a = b := by simp [pure, Except.pure]

theorem ite_bind {m : Type → Type} [Bind m] {c : Prop} [Decidable c] {first second : m α}
    {next : α → m β} :
    (if c then first else second) >>= next = if c then first >>= next else second >>= next := by
  split <;> rfl

def succeeds {ε' : Type} : Except ε (Except ε' α) → Bool
  | .ok (.ok _) => true
  | _ => false

theorem ok_of_succeeds {ε' : Type} {r : Except ε (Except ε' α)} (ok : succeeds r = true) :
    ∃ a, r = .ok (.ok a) := by
  rcases r with fault | fault | a
  · cases ok
  · cases ok
  · exact ⟨a, rfl⟩

end Result

/-- Whether a computation on a state ends without a fault, with a result and a state that satisfy a
condition. -/
def Runs {σ α : Type} (code : EStateM Fault σ α) (s : σ) (post : α → σ → Prop) : Prop :=
  ∃ a s', code s = .ok a s' ∧ post a s'

namespace Runs

variable {σ α β : Type} {s s' : σ} {code : EStateM Fault σ α} {next : α → EStateM Fault σ β}
  {post : α → σ → Prop} {last : β → σ → Prop}

theorem bind_run {a : α} (run : code s = .ok a s') : (code >>= next) s = next a s' := by
  simp [bind, EStateM.bind, run]

theorem bind_eq_ok {b : β} {s'' : σ} :
    (code >>= next) s = .ok b s'' ↔ ∃ a s', code s = .ok a s' ∧ next a s' = .ok b s'' := by
  cases run : code s with
  | ok a s' =>
    rw [bind_run run]
    constructor
    · exact fun rest => ⟨a, s', rfl, rest⟩
    · rintro ⟨a', s'', same, rest⟩
      obtain ⟨rfl, rfl⟩ : a = a' ∧ s' = s'' := by simpa using same
      exact rest
  | error fault s' => simp [bind, EStateM.bind, run]

protected theorem pure {a : α} (holds : post a s) : Runs (pure a) s post := ⟨a, s, rfl, holds⟩

protected theorem bind (first : Runs code s fun a s' => Runs (next a) s' last) :
    Runs (code >>= next) s last := by
  obtain ⟨a, s', run, b, s'', rest, holds⟩ := first
  exact ⟨b, s'', bind_eq_ok.mpr ⟨a, s', run, rest⟩, holds⟩

theorem mono {weaker : α → σ → Prop} (runs : Runs code s post)
    (weakens : ∀ a s', post a s' → weaker a s') : Runs code s weaker := by
  obtain ⟨a, s', run, holds⟩ := runs
  exact ⟨a, s', run, weakens a s' holds⟩

theorem step (first : Runs code s post) (rest : ∀ a s', post a s' → Runs (next a) s' last) :
    Runs (code >>= next) s last :=
  Runs.bind (first.mono rest)

theorem after {a : α} (run : code s = .ok a s') (rest : Runs (next a) s' last) :
    Runs (code >>= next) s last := by
  obtain ⟨b, s'', finished, holds⟩ := rest
  exact ⟨b, s'', (bind_run run).trans finished, holds⟩

theorem holds_of_run (runs : Runs code s post) {a : α} (run : code s = .ok a s') : post a s' := by
  obtain ⟨b, s'', same, holds⟩ := runs
  obtain ⟨rfl, rfl⟩ : a = b ∧ s' = s'' := by simpa [run] using same
  exact holds

theorem get_bind (next : σ → EStateM Fault σ β) (s : σ) : (get >>= next) s = next s s := rfl

theorem get_step {next : σ → EStateM Fault σ β} (rest : Runs (next s) s last) :
    Runs (get >>= next) s last :=
  Runs.bind ⟨s, s, rfl, rest⟩

theorem modifyGet_run (change : σ → α × σ) (s : σ) :
    (modifyGet change : EStateM Fault σ α) s = .ok (change s).1 (change s).2 :=
  rfl

theorem modify {change : σ → σ} {post : PUnit → σ → Prop} (holds : post ⟨⟩ (change s)) :
    Runs (modify change) s post :=
  ⟨⟨⟩, change s, rfl, holds⟩

end Runs
end Scriptc
