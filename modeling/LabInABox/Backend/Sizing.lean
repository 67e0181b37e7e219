import Mathlib.Algebra.Order.Field.Rat
import Mathlib.Order.WithBot
import LabInABox.Objects
import LabInABox.Schema.Validate

/-!
# Sizing an AWS instance

Model of `_pick_instance_type` of `AWSBackend` and of `_parse_sku_table` (`libs/backends.py`), with
`cheapest_sufficient` (`libs/aws_catalog.py`): the instance type of a VM that needs some vCPUs and MiB of
memory.

* Prices and memory are rationals. The memory of a configured entry is what `float(..)` reads, a parameter:
  a number, an infinity, or `nan`, which compares with nothing.
* The catalogue of the region is what `region_instance_types` and `region_prices` return, by name; neither
  keeps an entry without a name.
* `Choice` is what decided, with the entry of the table that was hit.

Results:
* `cheapest_spec`: of the sufficient priced types, the cheapest.
* `sized_iff`: exactly when the choice is sufficient and minimal.
* `builtin_sized`: without a configured table it always is.
* `larger_first_picked`: a configured table with the larger type first.
-/

namespace LabInABox.Backend.Sizing

open Text Schema

/-! ## Tables -/

/-- A `float`, none for `nan`. -/
abbrev PyFloat := Option (WithBot (WithTop ℚ))

/-- A number. -/
def PyFloat.num (q : ℚ) : PyFloat := some ((q : WithTop ℚ) : WithBot (WithTop ℚ))

/-- `a <= b`. -/
def PyFloat.le : PyFloat → PyFloat → Bool
  | some a, some b => a ≤ b
  | _, _ => false

/-- `a < b`. -/
def PyFloat.lt : PyFloat → PyFloat → Bool
  | some a, some b => a < b
  | _, _ => false

/-- An entry of a sizing table. -/
structure Sku where
  name : Text
  cores : Int
  memGb : PyFloat
  deriving DecidableEq

/-- One entry of `_parse_sku_table`. -/
def parseSku (float : Text → Option PyFloat) (configKey entry : Text) : Except Text Sku :=
  match entry.splitOn ':' with
  | [name, cores, mem] =>
    match parseInt cores, float mem with
    | some cores, some memGb => .ok ⟨name, cores, memGb⟩
    | _, _ => .error (configKey ++ " entry '".toList ++ entry ++
        "' has a non-numeric cores/mem_gb field — expected \"name:cores:mem_gb\" (e.g. \"t3.medium:2:4\")".toList)
  | _ => .error (configKey ++ " entry '".toList ++ entry ++
      "' is invalid — expected \"name:cores:mem_gb\" (e.g. \"t3.medium:2:4\")".toList)

/-- `_parse_sku_table(raw, config_key)`, or the message it dies with. -/
def parseSkuTable (float : Text → Option PyFloat) (configKey raw : Text) : Except Text (Option (List Sku)) :=
  if raw = [] then .ok none
  else
    match (((raw.splitOn ',').map strip).filter (· ≠ [])).mapM (parseSku float configKey) with
    | .error message => .error message
    | .ok [] => .error (configKey ++ " is set but contains no valid entries".toList)
    | .ok table => .ok (some table)

/-- `AWSBackend.INSTANCE_TYPES`. -/
def INSTANCE_TYPES : List Sku :=
  [⟨"t3.micro".toList, 2, .num 1⟩, ⟨"t3.small".toList, 2, .num 2⟩, ⟨"t3.medium".toList, 2, .num 4⟩,
    ⟨"t3.large".toList, 2, .num 8⟩, ⟨"t3.xlarge".toList, 4, .num 16⟩, ⟨"t3.2xlarge".toList, 8, .num 32⟩]

/-! ## The choice -/

/-- What the region offers: specifications (vCPUs and GiB) and prices, by name. -/
structure Catalog where
  specs : Obj Text (Int × ℚ)
  prices : Obj Text ℚ
  named : [] ∉ specs.keys

/-- The backend: the configured table, and the catalogue of its region. -/
structure AWSBackend where
  region : Text
  instance_types : Option (List Sku)
  catalog : Catalog

/-- `AWSBackend.resolve`, as far as the table goes. -/
def resolve (float : Text → Option PyFloat) (raw region : Text) (catalog : Catalog) : Except Text AWSBackend :=
  (parseSkuTable float "AWS_INSTANCE_TYPES".toList raw).map fun table => ⟨region, table, catalog⟩

/-- `int(vm_mem_mb) / 1024.0`. -/
def neededGb (mem : Int) : ℚ := (mem : ℚ) / 1024

/-- The specification has the vCPUs and the memory. -/
def Covers (cpu mem : Int) (spec : Int × ℚ) : Prop := cpu ≤ spec.1 ∧ neededGb mem ≤ spec.2

instance (cpu mem : Int) (spec : Int × ℚ) : Decidable (Covers cpu mem spec) :=
  inferInstanceAs (Decidable (_ ∧ _))

/-- The entry has the vCPUs and the memory. -/
def Sku.Enough (sku : Sku) (cpu mem : Int) : Prop :=
  cpu ≤ sku.cores ∧ PyFloat.le (.num (neededGb mem)) sku.memGb = true

instance (sku : Sku) (cpu mem : Int) : Decidable (sku.Enough cpu mem) :=
  inferInstanceAs (Decidable (_ ∧ _))

/-- The first of two tuples that are compared by `min`. -/
def smaller (a b : ℚ × Text) : ℚ × Text := if b.1 < a.1 ∨ (b.1 = a.1 ∧ b.2 < a.2) then b else a

/-- The candidates of `cheapest_sufficient`. -/
def candidates (catalog : Catalog) (cpu mem : Int) : List (ℚ × Text) :=
  catalog.prices.entries.filterMap fun e =>
    if (catalog.specs.get e.1).any (fun spec => decide (Covers cpu mem spec)) = true then some (e.2, e.1)
    else none

/-- `cheapest_sufficient(vm_cpu, vm_mem_mb, specs, prices)`. -/
def cheapest_sufficient (catalog : Catalog) (cpu mem : Int) : Text :=
  match candidates catalog cpu mem with
  | [] => []
  | c :: cs => (cs.foldl smaller c).2

/-- What decides an instance type: a live price, or an entry of the table. -/
inductive Choice
  | live (name : Text)
  | table (sku : Sku)

/-- The instance type that is returned. -/
def Choice.name : Choice → Text
  | live name => name
  | table sku => sku.name

namespace AWSBackend

/-- `self.instance_types`, if it counts. -/
def configured (b : AWSBackend) : List Sku := b.instance_types.getD []

/-- `table`. -/
def sizes (b : AWSBackend) : List Sku := if b.configured = [] then INSTANCE_TYPES else b.configured

/-- `cheapest`. -/
def cheapest (b : AWSBackend) (cpu mem : Int) : Text :=
  if b.configured = [] then cheapest_sufficient b.catalog cpu mem else []

/-- The message of the death. -/
def message (b : AWSBackend) (cpu mem : Int) (vmName : Text) : Text :=
  "AWSBackend found no instance type big enough for VM '".toList ++ vmName ++ "' (".toList ++
    intText cpu ++ " vCPU / ".toList ++ intText mem ++ " MiB), neither in region ".toList ++ b.region ++
    (" nor in its sizing table — raise it with AWS_INSTANCE_TYPES in /etc/lab_creation.cfg, or name a type " ++
      "outright with cloud_instance_type").toList

/-- `_pick_instance_type(vm_cpu, vm_mem_mb, vm_name)`, with what decided. -/
def pick (b : AWSBackend) (cpu mem : Int) (vmName : Text) : Except Text Choice :=
  if b.cheapest cpu mem ≠ [] then .ok (.live (b.cheapest cpu mem))
  else
    match b.sizes.find? fun sku => decide (sku.Enough cpu mem) with
    | some sku => .ok (.table sku)
    | none => .error (b.message cpu mem vmName)

/-- `_pick_instance_type(vm_cpu, vm_mem_mb, vm_name)`. -/
def _pick_instance_type (b : AWSBackend) (cpu mem : Int) (vmName : Text) : Except Text Text :=
  (b.pick cpu mem vmName).map Choice.name

/-! ## Sufficient and minimal -/

/-- A type of the region that is priced and sufficient, where no table is configured. -/
structure Live (b : AWSBackend) (cpu mem : Int) (name : Text) (price : ℚ) : Prop where
  unconfigured : b.configured = []
  priced : b.catalog.prices.get name = some price
  covers : ∃ spec, b.catalog.specs.get name = some spec ∧ Covers cpu mem spec

/-- At most as many vCPUs and at most as much memory, and less of one of them. -/
def Undercuts (a b : Sku) : Prop :=
  a.cores ≤ b.cores ∧ PyFloat.le a.memGb b.memGb = true ∧ (a.cores < b.cores ∨ PyFloat.lt a.memGb b.memGb = true)

/-- The choice is sufficient and minimal, and there is one unless nothing is sufficient. -/
def Sized (b : AWSBackend) (cpu mem : Int) (vmName : Text) : Prop :=
  match b.pick cpu mem vmName with
  | .ok (.live name) => ∃ price, b.Live cpu mem name price ∧
      ∀ name' price', b.Live cpu mem name' price' → price ≤ price'
  | .ok (.table sku) => sku ∈ b.sizes ∧ sku.Enough cpu mem ∧
      ∀ sku' ∈ b.sizes, sku'.Enough cpu mem → ¬ Undercuts sku' sku
  | .error _ => (∀ name price, ¬ b.Live cpu mem name price) ∧ ∀ sku ∈ b.sizes, ¬ sku.Enough cpu mem

/-- A later sufficient entry undercuts an earlier one only where a still earlier one is sufficient too. -/
def InOrder (table : List Sku) (cpu mem : Int) : Prop :=
  ∀ before sku after, table = before ++ sku :: after → ∀ sku' ∈ after, Undercuts sku' sku →
    sku'.Enough cpu mem → ∃ e ∈ before, e.Enough cpu mem

end AWSBackend

/-! ## Comparing -/

theorem PyFloat.le_trans {a b c : PyFloat} (hab : a.le b = true) (hbc : b.le c = true) : a.le c = true := by
  cases a with
  | none => exact hab
  | some a =>
    cases b with
    | none => exact absurd hab Bool.false_ne_true
    | some b =>
      cases c with
      | none => exact absurd hbc Bool.false_ne_true
      | some c => exact decide_eq_true ((of_decide_eq_true hab).trans (of_decide_eq_true hbc))

/-- An entry with no less than a sufficient one is sufficient. -/
theorem Sku.Enough.of_undercuts {a b : Sku} {cpu mem : Int} (h : a.Enough cpu mem)
    (hab : AWSBackend.Undercuts a b) : b.Enough cpu mem :=
  ⟨h.1.trans hab.1, PyFloat.le_trans h.2 hab.2.1⟩

/-! ## Live prices -/

variable {catalog : Catalog} {cpu mem : Int} {b : AWSBackend} {vmName : Text}

theorem mem_candidates {price : ℚ} {name : Text} : (price, name) ∈ candidates catalog cpu mem ↔
    catalog.prices.get name = some price ∧ ∃ spec, catalog.specs.get name = some spec ∧ Covers cpu mem spec := by
  rw [candidates, List.mem_filterMap]
  constructor
  · rintro ⟨⟨n, p⟩, he, hsome⟩
    split at hsome
    · rename_i hany
      obtain ⟨rfl, rfl⟩ := Prod.mk.inj (Option.some.inj hsome)
      refine ⟨Obj.mem_entries_iff.mp he, ?_⟩
      cases hspec : catalog.specs.get n with
      | none =>
        rw [hspec] at hany
        exact absurd hany Bool.false_ne_true
      | some spec =>
        rw [hspec] at hany
        exact ⟨spec, rfl, of_decide_eq_true hany⟩
    · exact absurd hsome.symm (Option.some_ne_none _)
  · rintro ⟨hprice, spec, hspec, hcovers⟩
    refine ⟨(name, price), Obj.mem_entries_iff.mpr hprice, ?_⟩
    rw [if_pos]
    rw [hspec]
    exact decide_eq_true hcovers

theorem smaller_fst_le (a c : ℚ × Text) : (smaller a c).1 ≤ a.1 ∧ (smaller a c).1 ≤ c.1 := by
  rw [smaller]
  split
  · rename_i h
    refine ⟨?_, le_refl _⟩
    rcases h with h | h
    · exact h.le
    · exact h.1.le
  · rename_i h
    rw [not_or] at h
    exact ⟨le_refl _, not_lt.mp h.1⟩

theorem smaller_mem (a c : ℚ × Text) : smaller a c = a ∨ smaller a c = c := by
  rw [smaller]
  split
  · exact Or.inr rfl
  · exact Or.inl rfl

/-- What `min` returns is one of the tuples, and none is less. -/
theorem foldl_smaller (cs : List (ℚ × Text)) : ∀ c : ℚ × Text,
    cs.foldl smaller c ∈ c :: cs ∧ ∀ x ∈ c :: cs, (cs.foldl smaller c).1 ≤ x.1 := by
  induction cs with
  | nil => exact fun c => ⟨List.mem_cons_self, fun x hx => (List.mem_singleton.mp hx).symm ▸ le_refl _⟩
  | cons a cs ih =>
    intro c
    obtain ⟨hmem, hle⟩ := ih (smaller c a)
    obtain ⟨hc, ha⟩ := smaller_fst_le c a
    have hfirst := hle _ List.mem_cons_self
    refine ⟨?_, fun x hx => ?_⟩
    · rw [List.foldl_cons]
      rcases List.mem_cons.mp hmem with h | h
      · rw [h]
        rcases smaller_mem c a with h | h
        · rw [h]
          exact List.mem_cons_self
        · rw [h]
          exact List.mem_cons_of_mem _ List.mem_cons_self
      · exact List.mem_cons_of_mem _ (List.mem_cons_of_mem _ h)
    · rw [List.foldl_cons]
      rcases List.mem_cons.mp hx with rfl | hx
      · exact hfirst.trans hc
      · rcases List.mem_cons.mp hx with rfl | hx
        · exact hfirst.trans ha
        · exact hle x (List.mem_cons_of_mem _ hx)

/-- **Of the sufficient priced types, the cheapest**: none is named only where there is none. -/
theorem cheapest_spec (catalog : Catalog) (cpu mem : Int) :
    (cheapest_sufficient catalog cpu mem = [] ∧ candidates catalog cpu mem = []) ∨
      cheapest_sufficient catalog cpu mem ≠ [] ∧
        ∃ price, (price, cheapest_sufficient catalog cpu mem) ∈ candidates catalog cpu mem ∧
          ∀ x ∈ candidates catalog cpu mem, price ≤ x.1 := by
  rw [cheapest_sufficient]
  split
  · rename_i h
    exact Or.inl ⟨rfl, h⟩
  · rename_i c cs h
    obtain ⟨hmem, hle⟩ := foldl_smaller cs c
    rw [← h] at hmem hle
    refine Or.inr ⟨fun hnil => ?_, (cs.foldl smaller c).1, hmem, hle⟩
    have hpair : ((cs.foldl smaller c).1, (cs.foldl smaller c).2) ∈ candidates catalog cpu mem := hmem
    obtain ⟨-, spec, hspec, -⟩ := mem_candidates.mp hpair
    rw [hnil] at hspec
    exact catalog.named (Obj.mem_keys_iff.mpr ⟨spec, hspec⟩)

namespace AWSBackend

theorem live_iff {name : Text} {price : ℚ} : b.Live cpu mem name price ↔
    b.configured = [] ∧ (price, name) ∈ candidates b.catalog cpu mem := by
  rw [mem_candidates]
  exact ⟨fun h => ⟨h.unconfigured, h.priced, h.covers⟩, fun h => ⟨h.1, h.2.1, h.2.2⟩⟩

/-- **Live prices decide** wherever a priced type is sufficient, and then the cheapest one is chosen. -/
theorem cheapest_iff (b : AWSBackend) (cpu mem : Int) :
    (b.cheapest cpu mem = [] ∧ ∀ name price, ¬ b.Live cpu mem name price) ∨
      b.cheapest cpu mem ≠ [] ∧ ∃ price, b.Live cpu mem (b.cheapest cpu mem) price ∧
        ∀ name' price', b.Live cpu mem name' price' → price ≤ price' := by
  rw [cheapest]
  split
  · rename_i hconf
    rcases cheapest_spec b.catalog cpu mem with ⟨hnil, hnone⟩ | ⟨hne, price, hmem, hle⟩
    · refine Or.inl ⟨hnil, fun name price h => ?_⟩
      have hlive := (live_iff.mp h).2
      rw [hnone] at hlive
      exact List.not_mem_nil hlive
    · exact Or.inr ⟨hne, price, live_iff.mpr ⟨hconf, hmem⟩, fun name' price' h =>
        hle (price', name') (live_iff.mp h).2⟩
  · rename_i hconf
    exact Or.inl ⟨rfl, fun name price h => hconf h.unconfigured⟩

/-! ## The table -/

theorem not_undercuts_self (sku : Sku) : ¬ Undercuts sku sku := fun h => by
  rcases h.2.2 with hlt | hlt
  · exact lt_irrefl _ hlt
  · cases hg : sku.memGb with
    | none =>
      rw [hg] at hlt
      exact Bool.false_ne_true hlt
    | some x =>
      rw [hg] at hlt
      exact lt_irrefl x (of_decide_eq_true hlt)

theorem pick_of_live {name : Text} {price : ℚ} (h : b.Live cpu mem name price) :
    b.pick cpu mem vmName = .ok (.live (b.cheapest cpu mem)) := by
  rcases cheapest_iff b cpu mem with ⟨-, hnone⟩ | ⟨hne, -⟩
  · exact absurd h (hnone name price)
  · rw [pick, if_pos hne]

theorem pick_of_not_live (h : ∀ name price, ¬ b.Live cpu mem name price) :
    b.pick cpu mem vmName = ((b.sizes.find? fun sku => decide (sku.Enough cpu mem)).map Choice.table).elim
      (.error (b.message cpu mem vmName)) .ok := by
  rcases cheapest_iff b cpu mem with ⟨hnil, -⟩ | ⟨-, price, hlive, -⟩
  · rw [pick, if_neg (not_not.mpr hnil)]
    cases b.sizes.find? fun sku => decide (sku.Enough cpu mem) <;> rfl
  · exact absurd hlive (h _ price)

theorem sized_of_live {name : Text} {price : ℚ} (h : b.Live cpu mem name price) : b.Sized cpu mem vmName := by
  rcases cheapest_iff b cpu mem with ⟨-, hnone⟩ | ⟨-, hspec⟩
  · exact absurd h (hnone name price)
  · rw [Sized, pick_of_live h]
    exact hspec

/-- **A table in order**: the first sufficient entry is minimal. -/
theorem sized_of_inOrder (h : ∀ name price, ¬ b.Live cpu mem name price) (horder : InOrder b.sizes cpu mem) :
    b.Sized cpu mem vmName := by
  rw [Sized, pick_of_not_live h]
  cases hfind : b.sizes.find? fun sku => decide (sku.Enough cpu mem) with
  | none => exact ⟨h, fun sku hsku => by simpa using List.find?_eq_none.mp hfind sku hsku⟩
  | some sku =>
    obtain ⟨hdec, before, after, htable, hbefore⟩ := List.find?_eq_some_iff_append.mp hfind
    have hnone : ∀ e ∈ before, ¬ e.Enough cpu mem := fun e he => by simpa using hbefore e he
    refine ⟨htable ▸ List.mem_append_right _ List.mem_cons_self, of_decide_eq_true hdec,
      fun sku' hsku' hen hunder => ?_⟩
    rw [htable] at hsku'
    rcases List.mem_append.mp hsku' with hmem | hmem
    · exact hnone sku' hmem hen
    · rcases List.mem_cons.mp hmem with rfl | hmem
      · exact not_undercuts_self sku' hunder
      · obtain ⟨e, he, hen'⟩ := horder before sku after htable sku' hmem hunder hen
        exact hnone e he hen'

/-- Where the choice is minimal, the table is in order for the request. -/
theorem inOrder_of_sized (h : ∀ name price, ¬ b.Live cpu mem name price) (hsized : b.Sized cpu mem vmName) :
    InOrder b.sizes cpu mem := by
  intro before sku after htable other hother hunder hen
  by_contra hno
  push Not at hno
  -- the entry that is undercut is the first sufficient one
  have hfind : b.sizes.find? (fun sku => decide (sku.Enough cpu mem)) = some sku :=
    List.find?_eq_some_iff_append.mpr ⟨decide_eq_true (hen.of_undercuts hunder), before, after, htable,
      fun e he => by simpa using hno e he⟩
  rw [Sized, pick_of_not_live h, hfind] at hsized
  refine hsized.2.2 other ?_ hen hunder
  rw [htable]
  exact List.mem_append_right _ (List.mem_cons_of_mem _ hother)

/-- **Exactly when the choice is sufficient and minimal**: a live price decides, or the table is in order for
the request. -/
theorem sized_iff (b : AWSBackend) (cpu mem : Int) (vmName : Text) :
    b.Sized cpu mem vmName ↔ (∃ name price, b.Live cpu mem name price) ∨ InOrder b.sizes cpu mem := by
  by_cases hlive : ∃ name price, b.Live cpu mem name price
  · obtain ⟨name, price, h⟩ := hlive
    exact ⟨fun _ => Or.inl ⟨name, price, h⟩, fun _ => sized_of_live h⟩
  · have hnone : ∀ name price, ¬ b.Live cpu mem name price := fun name price h => hlive ⟨name, price, h⟩
    rw [or_iff_right hlive]
    exact ⟨inOrder_of_sized hnone, sized_of_inOrder hnone⟩

instance (x y : Sku) : Decidable (Undercuts x y) := inferInstanceAs (Decidable (_ ∧ _ ∧ _))

/-- A table in which no entry undercuts an earlier one is in order for every request. -/
theorem inOrder_of_pairwise {table : List Sku} (h : table.Pairwise fun x y => ¬ Undercuts y x)
    (cpu mem : Int) : InOrder table cpu mem := by
  rintro before sku after rfl sku' hsku' hunder -
  have hafter := (List.pairwise_append.mp h).2.1
  exact absurd hunder (List.rel_of_pairwise_cons hafter hsku')

/-- **Without a configured table** the choice is sufficient and minimal for every request. -/
theorem builtin_sized (h : b.configured = []) (cpu mem : Int) (vmName : Text) : b.Sized cpu mem vmName := by
  have hsizes : b.sizes = INSTANCE_TYPES := if_pos h
  have horder : InOrder b.sizes cpu mem := by
    rw [hsizes]
    exact inOrder_of_pairwise (by decide) cpu mem
  by_cases hlive : ∃ name price, b.Live cpu mem name price
  · obtain ⟨name, price, hlive⟩ := hlive
    exact sized_of_live hlive
  · exact sized_of_inOrder (fun name price hl => hlive ⟨name, price, hl⟩) horder

end AWSBackend

/-! ## A table with the larger type first -/

/-- `float(..)` of the digits of a number. -/
def wholeNumber (t : Text) : Option PyFloat := (parseInt t).map fun n => .num n

/-- A region without a catalogue. -/
def noCatalog : Catalog := ⟨Obj.empty, Obj.empty, List.not_mem_nil⟩

/-- The larger type. -/
def xlarge : Sku := ⟨"t3.xlarge".toList, 4, .num 16⟩

/-- The smaller type. -/
def medium : Sku := ⟨"t3.medium".toList, 2, .num 4⟩

/-- A backend with the larger type first. -/
def xlargeFirst : AWSBackend := ⟨"eu-west-1".toList, some [xlarge, medium], noCatalog⟩

/-- The first sufficient entry of a configured table need not be the smallest. -/
theorem larger_first_picked : ¬ ∀ (float : Text → Option PyFloat) (raw region : Text) (catalog : Catalog)
    (b : AWSBackend), resolve float raw region catalog = .ok b →
      ∀ (cpu mem : Int) (vmName : Text), b.Sized cpu mem vmName := by
  intro h
  have hparse : parseSkuTable wholeNumber "AWS_INSTANCE_TYPES".toList
      "t3.xlarge:4:16,t3.medium:2:4".toList = .ok (some [xlarge, medium]) := by decide
  have hresolve : resolve wholeNumber "t3.xlarge:4:16,t3.medium:2:4".toList "eu-west-1".toList noCatalog =
      .ok xlargeFirst := by
    rw [resolve, hparse]
    rfl
  have hsized := h wholeNumber _ _ noCatalog xlargeFirst hresolve 2 4096 []
  have hfirst : xlarge.Enough 2 4096 := by decide +kernel
  have hfind : xlargeFirst.sizes.find? (fun sku => decide (sku.Enough 2 4096)) = some xlarge :=
    List.find?_cons_of_pos (decide_eq_true hfirst)
  have hcheapest : ¬ xlargeFirst.cheapest 2 4096 ≠ [] := not_not.mpr rfl
  have hpick : xlargeFirst.pick 2 4096 [] = .ok (.table xlarge) := by
    rw [AWSBackend.pick, if_neg hcheapest, hfind]
  rw [AWSBackend.Sized, hpick] at hsized
  exact hsized.2.2 medium (List.mem_cons_of_mem _ List.mem_cons_self) (by decide +kernel) (by decide +kernel)

end LabInABox.Backend.Sizing
