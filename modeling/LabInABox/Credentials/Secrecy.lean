import LabInABox.Credentials.Stored

/-!
# What the helper tells

That no answer of the helper depends on a secret.

* `Command.Alike` relates commands that differ in secrets only: in values, in passphrases and in random
  bytes. Whether a value is empty is no secret, and neither is whether a passphrase is too short.
* The ledger forgets random bytes, so two ledgers are compared instead of two directories.

Results:
* `ledger_alike`: ledgers that are alike stay so, and answer the same.
* `answers_alike`: so do two directories, over any commands.
-/

namespace LabInABox.Credentials.Helper

open Text Simulation
open Jobs.Status (safeName)
open Parsed (suffix)

variable (lib : Library) (repr : Text → Text)

/-! ## What the answers tell -/

/-- Stored in the same way, whatever the passphrase. -/
inductive Sealed.Alike : Sealed → Sealed → Prop
  | plain : Alike .plain .plain
  | whole (p p' : Text) : Alike (.whole p) (.whole p')
  | each (p p' : Text) : Alike (.each p) (.each p')

/-- Fields that differ in their values only. -/
structure Filled.Alike (f f' : Filled) : Prop where
  kind : f.kind = f'.kind
  entry : f.entry = f'.entry
  keys : f.fields.keys = f'.fields.keys

/-- Accounts that differ in values and in passphrases only. -/
structure Account.Alike (a a' : Account) : Prop where
  filled : Filled.Alike a.toFilled a'.toFilled
  sealed : Sealed.Alike a.sealed a'.sealed

/-- Requests that differ in values that are not empty, and in passphrases that are not short. -/
structure AddRequest.Alike (req req' : AddRequest) : Prop where
  kind : req.kind = req'.kind
  type : req.type = req'.type
  account : req.account = req'.account
  keys : (req.fields.filter fun e => decide (e.2 ≠ [])).keys = (req'.fields.filter fun e => decide (e.2 ≠ [])).keys
  passphrase : Option.Rel (fun p p' => tooShort p = tooShort p') req.passphrase req'.passphrase

/-- **Commands that differ in secrets only**: in values, in passphrases and in random bytes. -/
inductive Command.Alike : Command → Command → Prop
  | list : Alike .list .list
  | add {req req' : AddRequest} (h : req.Alike req') (r r' : Nonces) : Alike (.add req r) (.add req' r')
  | encrypt (name : Text) {p p' : Text} (h : tooShort p = tooShort p') (r r' : Text → Nonces) :
      Alike (.encrypt name p r) (.encrypt name p' r')
  | delete (name : Text) : Alike (.delete name) (.delete name)

/-- Ledgers that differ in values and in passphrases only. -/
def Ledger.Alike (l l' : Ledger) : Prop := Obj.RelatedBy Account.Alike l l'

section Alike

variable {repr} {l l' : Ledger} {a a' : Account} {req req' : AddRequest}

theorem Account.Alike.secrets (h : a.Alike a') : a.secrets = a'.secrets ∧ a.sensitive = a'.sensitive := by
  have hs : a.sensitive = a'.sensitive := by
    unfold Filled.sensitive
    rw [h.filled.keys]
  refine ⟨?_, hs⟩
  have hsealed := h.sealed
  unfold Account.secrets
  rw [hs]
  generalize a.sealed = s at hsealed
  generalize a'.sealed = s' at hsealed
  cases hsealed <;> rfl

/-- What is shown of accounts that are alike is the same. -/
theorem Account.Alike.outline (h : a.Alike a') (n : Text) : a.outline n = a'.outline n := by
  obtain ⟨hsecrets, hsensitive⟩ := h.secrets
  have hsealed := h.sealed
  unfold Account.outline
  rw [hsecrets, hsensitive, h.filled.kind, h.filled.entry, h.filled.keys]
  generalize a.sealed = s at hsealed
  generalize a'.sealed = s' at hsealed
  cases hsealed <;> rfl

theorem vet_alike (repr : Text → Text) (h : req.Alike req') (holds : Text → Bool) :
    match vet repr holds req, vet repr holds req' with
    | .error e, .error e' => e = e'
    | .ok v, .ok v' => v.1.Alike v'.1 ∧ v.2 = v'.2
    | _, _ => False := by
  obtain ⟨kind, type, account, fields, passphrase⟩ := req
  obtain ⟨kind', type', account', fields', passphrase'⟩ := req'
  obtain ⟨rfl, rfl, rfl, hkeys, hp⟩ := h
  dsimp only at hkeys hp
  have hshort : passphrase.any tooShort = passphrase'.any tooShort := by
    cases hp with
    | none => rfl
    | some h => exact h
  unfold vet
  dsimp only
  cases registry kind with
  | none => rfl
  | some k =>
    dsimp only
    cases k.table.attach.find? fun e => decide (e.1.1 = type) with
    | none => rfl
    | some e =>
      simp only [hkeys, hshort]
      split_ifs
      · rfl
      · rfl
      · rfl
      · rfl
      · exact ⟨⟨rfl, rfl, hkeys⟩, rfl⟩
      · rfl

theorem Ledger.Alike.holds_eq (h : l.Alike l') :
    (fun n => decide (n ∈ l.keys)) = fun n => decide (n ∈ l'.keys) :=
  funext fun n => decide_eq_decide.mpr (Obj.RelatedBy.mem_keys_iff h n)

theorem Ledger.Alike.list (h : l.Alike l') (place : Text) : l.list place = l'.list place := by
  have hsorted : sorted l.keys = sorted l'.keys := sorted_congr l.nodup l'.nodup (Obj.RelatedBy.mem_keys_iff h)
  have hentry : ∀ n ∈ sorted l'.keys,
      (l.get n).map (Account.outline n) = (l'.get n).map (Account.outline n) := by
    intro n _
    have hn := h n
    generalize l.get n = x at hn
    generalize l'.get n = x' at hn
    cases hn with
    | none => rfl
    | some ha => exact congrArg some (ha.outline n)
  unfold Ledger.list
  rw [hsorted, List.filterMap_congr hentry]

theorem Ledger.Alike.add (h : l.Alike l') (hreq : req.Alike req') :
    (l.add repr req).1.Alike (l'.add repr req').1 ∧ (l.add repr req).2 = (l'.add repr req').2 := by
  have hv := vet_alike repr hreq fun n => decide (n ∈ l'.keys)
  unfold Ledger.add
  rw [h.holds_eq]
  revert hv
  cases vet repr (fun n => decide (n ∈ l'.keys)) req with
  | error e =>
    cases vet repr (fun n => decide (n ∈ l'.keys)) req' with
    | error e' =>
      rintro rfl
      exact ⟨h, rfl⟩
    | ok v' => exact False.elim
  | ok v =>
    cases vet repr (fun n => decide (n ∈ l'.keys)) req' with
    | error e' => exact False.elim
    | ok v' =>
      obtain ⟨f, s⟩ := v
      obtain ⟨f', s'⟩ := v'
      rintro ⟨hf, rfl⟩
      refine ⟨Obj.RelatedBy.set h _ ⟨hf, ?_⟩, rfl⟩
      have hp := hreq.passphrase
      generalize req.passphrase = p at hp
      generalize req'.passphrase = p' at hp
      cases hp with
      | none => exact Sealed.Alike.plain
      | some _ => exact Sealed.Alike.whole _ _

theorem Ledger.Alike.encrypt (h : l.Alike l') (name : Text) {p p' : Text} (hp : tooShort p = tooShort p') :
    (l.encrypt repr name p).1.Alike (l'.encrypt repr name p').1 ∧
      (l.encrypt repr name p).2 = (l'.encrypt repr name p').2 := by
  unfold Ledger.encrypt
  rw [h.holds_eq, hp]
  cases credentialFile repr (fun n => decide (n ∈ l'.keys)) name with
  | some e => exact ⟨h, rfl⟩
  | none =>
    dsimp only
    split
    · exact ⟨h, rfl⟩
    · have hn := h name
      have hout := Obj.RelatedBy.mem_keys_iff h (stem name ++ ".encrypted.yaml".toList)
      generalize l.get name = x at hn
      generalize l'.get name = x' at hn
      cases hn with
      | none => exact ⟨h, rfl⟩
      | @some a a' ha =>
        obtain ⟨hsecrets, _⟩ := ha.secrets
        rw [filter_secrets, filter_secrets, hsecrets]
        by_cases hnone : a'.secrets = []
        · rw [if_pos hnone, if_pos hnone]
          exact ⟨h, rfl⟩
        · rw [if_neg hnone, if_neg hnone]
          dsimp only
          by_cases hmem : stem name ++ ".encrypted.yaml".toList ∈ l'.keys
          · rw [if_pos hmem, if_pos (hout.mpr hmem)]
            exact ⟨h, rfl⟩
          · rw [if_neg hmem, if_neg (mt hout.mp hmem), hsecrets]
            exact ⟨Obj.RelatedBy.set h _ ⟨ha.filled, Sealed.Alike.each _ _⟩, rfl⟩

theorem Ledger.Alike.delete (h : l.Alike l') (name : Text) :
    (l.delete repr name).1.Alike (l'.delete repr name).1 ∧
      (l.delete repr name).2 = (l'.delete repr name).2 := by
  unfold Ledger.delete
  rw [h.holds_eq]
  cases credentialFile repr (fun n => decide (n ∈ l'.keys)) name with
  | some e => exact ⟨h, rfl⟩
  | none => exact ⟨Obj.RelatedBy.erase h name, rfl⟩

end Alike

/-- In ledgers that are alike, commands that are alike are answered alike. -/
theorem ledger_alike (repr : Text → Text) (place : Text) :
    Simulates Ledger.Alike Command.Alike (Ledger.step repr place) (Ledger.step repr place) := by
  intro l l' c c' h hc
  cases hc with
  | list => exact ⟨h, congrArg Except.ok (h.list place)⟩
  | add hreq r r' => exact h.add hreq
  | encrypt name hp r r' => exact h.encrypt name hp
  | delete name => exact h.delete name

/-- **The answers tell no secret**: two runs whose commands differ in values, passphrases and random bytes only
are answered the same, listings and messages included. -/
theorem answers_alike (place : Text) {commands commands' : List Command}
    (h : List.Forall₂ Command.Alike commands commands') :
    (answering (step lib repr place) Obj.empty commands).2 =
      (answering (step lib repr place) Obj.empty commands').2 := by
  obtain ⟨_, hleft⟩ := (helper_refines lib repr place).refines Agrees.empty commands
  obtain ⟨_, hright⟩ := (helper_refines lib repr place).refines Agrees.empty commands'
  have hempty : Ledger.Alike Obj.empty Obj.empty := Obj.RelatedBy.empty
  rw [hleft, hright, ((ledger_alike repr place).run hempty h).2]

theorem answers_alike_sample :
    (answering (step sampleLibrary id "/creds".toList) Obj.empty (sampleCommands ++ [.list])).2 =
      (answering (step sampleLibrary id "/creds".toList) Obj.empty
        [.add ⟨"cloud".toList, "hetzner".toList, "eu".toList,
            Obj.empty.set "HETZNER_TOKEN".toList "an0ther".toList, none⟩ ⟨[7], [8], [9]⟩,
          .encrypt "hetzner-eu.yaml".toList "battery staple".toList (fun _ => ⟨[4], [5], [6]⟩), .list]).2 := by
  have hadd : AddRequest.Alike ⟨"cloud".toList, "hetzner".toList, "eu".toList, sampleFields, none⟩
      ⟨"cloud".toList, "hetzner".toList, "eu".toList, Obj.empty.set "HETZNER_TOKEN".toList "an0ther".toList, none⟩ :=
    ⟨rfl, rfl, rfl, by decide, .none⟩
  exact answers_alike sampleLibrary id "/creds".toList
    (.cons (.add hadd _ _) (.cons (.encrypt _ (by decide) _ _) (.cons .list .nil)))

end LabInABox.Credentials.Helper
