import LabInABox.Objects
import LabInABox.Text.JsonLayout

/-!
# JSON files of Python

What `json.dump(value, f, indent=n)` writes and `json.load(f)` reads, for values as Python holds them.

* The reader of `PyJson` gives the pairs of an object as they stand. Python makes a `dict` of them: a key
  stands where it is first, with its last value. `asDict` does so at any depth.
* A `Held` value has no key twice.

Results:
* `held_asDict`, `asDict_eq_self`: a value that was read is held, and what is held is left as it is.
* `jsonLoad_jsonDump`: what is written is read, whatever blanks are put around it.
-/

namespace LabInABox.Text.PyJson

open JsValue

variable {ν : Type} {R : Rounding}

mutual

/-- The value, with a `dict` for each object. -/
def asDict : JsValue ν → JsValue ν
  | list vs => list (asDicts vs)
  | mapping es => mapping (Obj.empty.assign (asDictEntries es)).entries
  | v => v

def asDicts : List (JsValue ν) → List (JsValue ν)
  | [] => []
  | v :: vs => asDict v :: asDicts vs

def asDictEntries : List (Text × JsValue ν) → List (Text × JsValue ν)
  | [] => []
  | (k, v) :: es => (k, asDict v) :: asDictEntries es

end

/-- **A value as Python holds it**: no key stands twice, at any depth. -/
inductive Held : JsValue ν → Prop
  | null : Held null
  | bool (b : Bool) : Held (.bool b)
  | number (n : ν) : Held (number n)
  | text (t : Text) : Held (text t)
  | list {vs : List (JsValue ν)} (h : ∀ v ∈ vs, Held v) : Held (list vs)
  | mapping {es : List (Text × JsValue ν)} (hnd : (es.map Prod.fst).Nodup) (h : ∀ e ∈ es, Held e.2) :
      Held (mapping es)

theorem mem_asDicts {v : JsValue ν} : ∀ {vs : List (JsValue ν)}, v ∈ asDicts vs → ∃ w ∈ vs, v = asDict w
  | [], h => by cases h
  | w :: vs, h => by
    rcases List.mem_cons.mp h with rfl | h
    · exact ⟨w, List.mem_cons_self, rfl⟩
    · obtain ⟨w', hw', he⟩ := mem_asDicts h
      exact ⟨w', List.mem_cons_of_mem _ hw', he⟩

theorem mem_asDictEntries {e : Text × JsValue ν} : ∀ {es : List (Text × JsValue ν)}, e ∈ asDictEntries es →
    ∃ e' ∈ es, e = (e'.1, asDict e'.2)
  | [], h => by cases h
  | (k, v) :: es, h => by
    rcases List.mem_cons.mp h with rfl | h
    · exact ⟨(k, v), List.mem_cons_self, rfl⟩
    · obtain ⟨e', he', he⟩ := mem_asDictEntries h
      exact ⟨e', List.mem_cons_of_mem _ he', he⟩

theorem map_fst_asDictEntries (es : List (Text × JsValue ν)) : (asDictEntries es).map Prod.fst = es.map Prod.fst := by
  induction es with
  | nil => rfl
  | cons e es ih =>
    obtain ⟨k, _⟩ := e
    exact congrArg (k :: ·) ih

/-- An entry that is set comes from the list. -/
theorem mem_of_mem_assign {es : List (Text × JsValue ν)} {e : Text × JsValue ν}
    (h : e ∈ (Obj.empty.assign es).entries) : e ∈ es := by
  have hget := Obj.mem_entries_iff.mp (show (e.1, e.2) ∈ _ from h)
  rw [Obj.get_assign_of_lawful, Obj.get_empty, Option.or_none, dictGet] at hget
  obtain ⟨l₁, l₂, hl, _⟩ := List.lookup_eq_some_iff.mp hget
  rw [← List.mem_reverse, hl]
  exact List.mem_append_right _ List.mem_cons_self

mutual

/-- **What is held stays as it is.** -/
theorem asDict_eq_self : ∀ v : JsValue ν, Held v → asDict v = v
  | null, _ => rfl
  | .bool _, _ => rfl
  | number _, _ => rfl
  | text _, _ => rfl
  | list vs, h => by
    cases h with
    | list h => rw [asDict, asDicts_eq_self vs h]
  | mapping es, h => by
    cases h with
    | mapping hnd h => rw [asDict, asDictEntries_eq_self es h, Obj.entries_assign hnd]

theorem asDicts_eq_self : ∀ vs : List (JsValue ν), (∀ v ∈ vs, Held v) → asDicts vs = vs
  | [], _ => rfl
  | v :: vs, h => by
    rw [asDicts, asDict_eq_self v (h v List.mem_cons_self),
      asDicts_eq_self vs fun w hw => h w (List.mem_cons_of_mem _ hw)]

theorem asDictEntries_eq_self : ∀ es : List (Text × JsValue ν), (∀ e ∈ es, Held e.2) → asDictEntries es = es
  | [], _ => rfl
  | (k, v) :: es, h => by
    rw [asDictEntries, asDict_eq_self v (h (k, v) List.mem_cons_self),
      asDictEntries_eq_self es fun e he => h e (List.mem_cons_of_mem _ he)]

end

mutual

/-- **What is read is held.** -/
theorem held_asDict : ∀ v : JsValue ν, Held (asDict v)
  | null => .null
  | .bool b => .bool b
  | number n => .number n
  | text t => .text t
  | list vs => .list (held_asDicts vs)
  | mapping es => .mapping (Obj.empty.assign (asDictEntries es)).nodup fun e he =>
      held_asDictEntries es e (mem_of_mem_assign he)

theorem held_asDicts : ∀ vs : List (JsValue ν), ∀ v ∈ asDicts vs, Held v
  | [] => fun _ h => by cases h
  | v :: vs => fun w hw => by
    rcases List.mem_cons.mp hw with rfl | hw
    · exact held_asDict v
    · exact held_asDicts vs w hw

theorem held_asDictEntries : ∀ es : List (Text × JsValue ν), ∀ e ∈ asDictEntries es, Held e.2
  | [] => fun _ h => by cases h
  | (k, v) :: es => fun e he => by
    rcases List.mem_cons.mp he with rfl | he
    · exact held_asDict v
    · exact held_asDictEntries es e he

end

/-! ## Files -/

/-- `json.dumps(value, indent=width)`. -/
def jsonDump (width : Nat) (v : JsValue (Number R)) : Text := dumpsIndent asciiEscape width 0 v

/-- `json.loads(t)`, with its objects as Python holds them. -/
def jsonLoad (t : Text) : Option (JsValue (Number R)) := (loads t).map asDict

/-- **What is written is read**, whatever blanks are put around it. -/
theorem jsonLoad_jsonDump {v : JsValue (Number R)} (h : Held v) (width : Nat) {b b' : Text} (hb : Blanks b)
    (hb' : Blanks b') : jsonLoad (b ++ (jsonDump width v ++ b')) = some v := by
  rw [jsonLoad, jsonDump, loads_laid decodes_asciiEscape hb (laid_dumpsIndent width 0 v) hb', Option.map_some,
    asDict_eq_self v h]

/-- What is read is held. -/
theorem held_of_jsonLoad {t : Text} {v : JsValue (Number R)} (h : jsonLoad t = some v) : Held v := by
  obtain ⟨w, _, rfl⟩ := Option.map_eq_some_iff.mp h
  exact held_asDict w

end LabInABox.Text.PyJson
