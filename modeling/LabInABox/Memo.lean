import Mathlib.Data.Set.Function

/-!
# Results that are kept with a signature

A program keeps what it computed for a key, with the signature of what that was computed from, and takes it again
while the signature is the same.

* `signature` and `output` are what a key has in a form of things. `forms` are the forms things may take.
* A table is looked up by the names of its keys, which tell them apart.

Results:
* `valid_of_identifies`: what is computed and signed in one form is valid in every form.
* `Sound.insert`: a valid entry leaves the table sound.
* `Sound.take`: what is taken from a sound table is what would be computed.
* `Warm.insert`: what can be taken can be taken after another key is signed.
-/

namespace LabInABox.Memo

variable {σ κ δ ρ ω : Type*}

/-- What is kept of a key. -/
structure Entry (ρ ω : Type*) where
  sig : ρ
  out : ω

section

variable (signature : σ → κ → ρ) (output : σ → κ → ω) (forms : Set σ) (keys : Set κ) (name : κ → δ)

/-- The signature tells the output. -/
def Identifies : Prop :=
  ∀ w ∈ forms, ∀ w' ∈ forms, ∀ k ∈ keys, signature w k = signature w' k → output w k = output w' k

/-- The entry is what is computed wherever it has the signature. -/
def Valid (k : κ) (e : Entry ρ ω) : Prop := ∀ w ∈ forms, signature w k = e.sig → output w k = e.out

/-- Every entry is valid. -/
def Sound (get : δ → Option (Entry ρ ω)) : Prop :=
  ∀ k ∈ keys, ∀ e, get (name k) = some e → Valid signature output forms k e

/-- The key has an entry that can be taken. -/
def Warm (get : δ → Option (Entry ρ ω)) (w : σ) (k : κ) : Prop := ∃ e, get (name k) = some e ∧ e.sig = signature w k

end

variable {signature : σ → κ → ρ} {output : σ → κ → ω} {forms : Set σ} {keys : Set κ} {name : κ → δ}
  {get get' : δ → Option (Entry ρ ω)} {w : σ} {k k' : κ} {e : Entry ρ ω}

theorem valid_of_identifies (h : Identifies signature output forms keys) (hw : w ∈ forms) (hk : k ∈ keys) :
    Valid signature output forms k ⟨signature w k, output w k⟩ :=
  fun w' hw' hsig => h w' hw' w hw k hk hsig

theorem sound_of_forall_none (h : ∀ n, get n = none) : Sound signature output forms keys name get :=
  fun k _ e he => by rw [h] at he; cases he

/-- **What is taken** is what would be computed. -/
theorem Sound.take (h : Sound signature output forms keys name get) (hw : w ∈ forms) (hk : k ∈ keys)
    (he : get (name k) = some e) (hsig : e.sig = signature w k) : e.out = output w k :=
  (h k hk e he w hw hsig.symm).symm

/-- **A valid entry** leaves the table sound. -/
theorem Sound.insert [DecidableEq δ] (h : Sound signature output forms keys name get) (hname : Set.InjOn name keys)
    (hk : k ∈ keys) (he : Valid signature output forms k e)
    (hget : ∀ n, get' n = if n = name k then some e else get n) : Sound signature output forms keys name get' := by
  intro k' hk' e' he'
  rw [hget] at he'
  split at he'
  · rename_i hn
    obtain rfl := hname hk' hk hn
    exact Option.some.inj he' ▸ he
  · exact h k' hk' e' he'

theorem Warm.insert [DecidableEq δ] (h : Warm signature name get w k') (hname : Set.InjOn name keys) (hk : k ∈ keys)
    (hk' : k' ∈ keys) (hsig : e.sig = signature w k) (hget : ∀ n, get' n = if n = name k then some e else get n) :
    Warm signature name get' w k' := by
  by_cases hn : name k' = name k
  · obtain rfl := hname hk' hk hn
    exact ⟨e, by rw [hget, if_pos rfl], hsig⟩
  · obtain ⟨e', he', hsig'⟩ := h
    exact ⟨e', by rw [hget, if_neg hn, he'], hsig'⟩

end LabInABox.Memo
