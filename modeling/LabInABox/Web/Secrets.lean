import LabInABox.JsValue
import LabInABox.Web.Compile

/-!
# Secrets of a lab that is handed over

Model of `passwordFields` and `withSecretPlaceholders` (`webui/htdocs/app.js`), which `sendLab` applies to
the lab before another site gets it.

* Schemas and labs are JSON values. `numText` is `String` of a number.
* An assignment to `__proto__` adds no key, whatever is assigned.
* Two labs differ in their secrets only when they are alike after each value that is neither null nor
  `""` is replaced, below the outermost key that is a password field.

Results:
* `withSecretPlaceholders_eq`: the copy is that of the lab without the entries of `__proto__`.
* `masked_eq_iff`: when two copies are the same.
* `handedOver_of_plain`: secrets that are texts, numbers or booleans are not handed over.
* `handedOver_iff`: exactly which ones are. A list or a mapping is copied as it stands, and so is a text that
  begins with `??`.
-/

namespace LabInABox.Web.Secrets

open JsValue

variable {ν : Type}

/-! ## Password fields -/

mutual

/-- `visit` of `passwordFields`: the names of the password fields in a part of a schema. -/
def visit : JsValue ν → List Text
  | list vs => visitList vs
  | mapping es =>
    (match es.lookup "type".toList, es.lookup "name".toList with
      | some (text type), some (text name) => if type = "password".toList then [name] else []
      | _, _ => []) ++ visitEntries es
  | _ => []

def visitList : List (JsValue ν) → List Text
  | [] => []
  | v :: vs => visit v ++ visitList vs

def visitEntries : List (Text × JsValue ν) → List Text
  | [] => []
  | (_, v) :: es => visit v ++ visitEntries es

end

/-- `passwordFields(schemas)`. -/
def passwordFields (schemas : List (JsValue ν)) : List Text := schemas.flatMap visit

/-! ## Placeholders -/

/-- `v !== "" && v != null`. -/
def filled : JsValue ν → Bool
  | null => false
  | text t => !t.isEmpty
  | _ => true

/-- `"??" + k`. -/
def placeholder (k : Text) : JsValue ν := text ('?' :: '?' :: k)

section Copy

variable (numText : ν → Text) (names : List Text)

/-- `String(v)` of a value that is not an object. -/
def shown : JsValue ν → Option Text
  | .bool b => some (if b then "true".toList else "false".toList)
  | number n => some (numText n)
  | text t => some t
  | _ => none

/-- Does the copy hide the value behind a placeholder? -/
def masks (k : Text) (v : JsValue ν) : Bool :=
  decide (k ∈ names) && filled v && (shown numText v).any fun t => !(['?', '?'].isPrefixOf t)

/-- What `copy` makes of an entry. -/
def copyEdit (k : Text) (v : JsValue ν) : JsValue.Edit ν :=
  if k = proto then .drop else if masks numText names k v then .replace (placeholder k) else .descend

/-- `withSecretPlaceholders(lab, names)`. -/
def withSecretPlaceholders (lab : JsValue ν) : JsValue ν := walk (copyEdit numText names) lab

/-! ## What may be handed over -/

/-- The lab with each of its secrets, as far out as possible, replaced by one and the same. -/
def blanked (lab : JsValue ν) : JsValue ν :=
  walk (fun k v => if k ∈ names ∧ filled v = true then .replace (.bool true) else .descend) lab

/-- The lab without the keys of password fields. -/
def outside (lab : JsValue ν) : JsValue ν := walk (fun k _ => if k ∈ names then .drop else .descend) lab

/-- The labs differ in their secrets only. -/
def SameButSecrets (lab lab' : JsValue ν) : Prop := blanked names lab = blanked names lab'

/-- One copy serves both labs, and differs from each only under the password fields. -/
def HandedOver (lab lab' : JsValue ν) : Prop :=
  withSecretPlaceholders numText names lab = withSecretPlaceholders numText names lab' ∧
    outside names (withSecretPlaceholders numText names lab) = outside names lab ∧
    outside names (withSecretPlaceholders numText names lab') = outside names lab'

/-- The value of the key shows nothing: it is masked, or the placeholder already. -/
def Hidden (k : Text) (v : JsValue ν) : Prop :=
  masks numText names k v = true ∨ (k ∈ names ∧ v = placeholder k)

mutual

/-- The values are alike, but for what is hidden in both. -/
def Alike : JsValue ν → JsValue ν → Prop
  | list vs, list vs' => AlikeList vs vs'
  | mapping es, mapping es' => AlikeEntries es es'
  | v, v' => v = v'

def AlikeList : List (JsValue ν) → List (JsValue ν) → Prop
  | [], [] => True
  | v :: vs, v' :: vs' => Alike v v' ∧ AlikeList vs vs'
  | _, _ => False

def AlikeEntries : List (Text × JsValue ν) → List (Text × JsValue ν) → Prop
  | [], [] => True
  | (k, v) :: es, (k', v') :: es' =>
    k = k' ∧ (Hidden numText names k v ∧ Hidden numText names k v' ∨ Alike v v') ∧ AlikeEntries es es'
  | _, _ => False

end

end Copy

/-! ## The copy -/

section Facts

variable {numText : ν → Text} {names : List Text}

/-- A copy without regard to `__proto__`. -/
def maskEdit (numText : ν → Text) (names : List Text) (k : Text) (v : JsValue ν) : JsValue.Edit ν :=
  if masks numText names k v then .replace (placeholder k) else .descend

theorem masks_walk (f : Text → JsValue ν → JsValue.Edit ν) (k : Text) (v : JsValue ν) :
    masks numText names k (walk f v) = masks numText names k v := by
  cases v <;> rfl

/-- The copy is that of the lab without the entries of `__proto__`. -/
theorem withSecretPlaceholders_eq (lab : JsValue ν) :
    withSecretPlaceholders numText names lab = walk (maskEdit numText names) (without proto lab) := by
  refine (walk_walk (fun k v => ?_) lab).symm
  by_cases hk : k = proto
  · simp [copyEdit, hk, JsValue.Edit.andThen]
  · simp [copyEdit, hk, JsValue.Edit.andThen, maskEdit, masks_walk]

theorem outside_mask (lab : JsValue ν) :
    outside names (walk (maskEdit numText names) lab) = outside names lab := by
  refine walk_walk (fun k v => ?_) lab
  by_cases hm : masks numText names k v = true
  · have hk : k ∈ names := by
      simp only [masks, Bool.and_eq_true, decide_eq_true_eq] at hm
      exact hm.1.1
    simp [maskEdit, hm, JsValue.Edit.andThen, hk]
  · simp [maskEdit, hm, JsValue.Edit.andThen]

theorem outside_without (lab : JsValue ν) :
    outside names (without proto lab) = without proto (outside names lab) := by
  have hleft : outside names (without proto lab) =
      walk (fun k _ => if k = proto ∨ k ∈ names then .drop else .descend) lab := by
    refine walk_walk (fun k v => ?_) lab
    by_cases hk : k = proto
    · rw [if_pos (Or.inl hk), if_pos hk, JsValue.Edit.andThen]
    · rw [if_neg hk, JsValue.Edit.andThen]
      simp [hk]
  have hright : without proto (outside names lab) =
      walk (fun k _ => if k = proto ∨ k ∈ names then .drop else .descend) lab := by
    refine walk_walk (fun k v => ?_) lab
    by_cases hn : k ∈ names
    · rw [if_pos (Or.inr hn), if_pos hn, JsValue.Edit.andThen]
    · rw [if_neg hn, JsValue.Edit.andThen]
      simp [hn]
  rw [hleft, hright]

/-- Outside of the password fields, the copy is the lab exactly when no key is `__proto__`. -/
theorem outside_copy_iff (lab : JsValue ν) :
    outside names (withSecretPlaceholders numText names lab) = outside names lab ↔
      proto ∉ keys (outside names lab) := by
  rw [withSecretPlaceholders_eq, outside_mask, outside_without, without_eq_self_iff]

/-! ## Two copies -/

theorem hidden_iff {k : Text} {v : JsValue ν} (hm : masks numText names k v = false) :
    Hidden numText names k v ↔ k ∈ names ∧ v = placeholder k := by
  simp [Hidden, hm]

theorem walk_eq_placeholder {k : Text} {v : JsValue ν} (h : walk (maskEdit numText names) v = placeholder k) :
    v = placeholder k := by
  cases v with
  | text t => exact h
  | _ => cases h

/-- What a copied entry holds. -/
def copied (numText : ν → Text) (names : List Text) (k : Text) (v : JsValue ν) : JsValue ν :=
  if masks numText names k v then placeholder k else walk (maskEdit numText names) v

theorem walkEntries_cons (k : Text) (v : JsValue ν) (es : List (Text × JsValue ν)) :
    walkEntries (maskEdit numText names) ((k, v) :: es) =
      (k, copied numText names k v) :: walkEntries (maskEdit numText names) es := by
  by_cases h : masks numText names k v = true
  · simp [walkEntries, maskEdit, copied, h]
  · simp [walkEntries, maskEdit, copied, h]

theorem mem_names_of_masks {k : Text} {v : JsValue ν} (h : masks numText names k v = true) : k ∈ names := by
  simp only [masks, Bool.and_eq_true, decide_eq_true_eq] at h
  exact h.1.1

/-- Two values of one key have the same copy when both are hidden, or without regard to the key. -/
theorem copied_eq_iff (k : Text) (v v' : JsValue ν) :
    copied numText names k v = copied numText names k v' ↔
      Hidden numText names k v ∧ Hidden numText names k v' ∨
        walk (maskEdit numText names) v = walk (maskEdit numText names) v' := by
  have hplace : ∀ w : JsValue ν, Hidden numText names k w → copied numText names k w = placeholder k := by
    rintro w (hw | ⟨-, rfl⟩)
    · simp [copied, hw]
    · unfold copied
      split <;> rfl
  have hback : ∀ w : JsValue ν, k ∈ names → copied numText names k w = placeholder k →
      Hidden numText names k w := by
    intro w hk hw
    by_cases hm : masks numText names k w = true
    · exact Or.inl hm
    · rw [copied, if_neg hm] at hw
      exact Or.inr ⟨hk, walk_eq_placeholder hw⟩
  have hsame : ∀ w w' : JsValue ν, walk (maskEdit numText names) w = walk (maskEdit numText names) w' →
      masks numText names k w = masks numText names k w' := by
    intro w w' h
    rw [← masks_walk (maskEdit numText names) k w, h, masks_walk]
  constructor
  · intro h
    by_cases hm : masks numText names k v = true
    · have hk := mem_names_of_masks hm
      have hv : copied numText names k v = placeholder k := hplace v (Or.inl hm)
      exact Or.inl ⟨Or.inl hm, hback v' hk (h ▸ hv)⟩
    · by_cases hm' : masks numText names k v' = true
      · have hk := mem_names_of_masks hm'
        have hv' : copied numText names k v' = placeholder k := hplace v' (Or.inl hm')
        exact Or.inl ⟨hback v hk (h.trans hv'), Or.inl hm'⟩
      · rw [copied, copied, if_neg hm, if_neg hm'] at h
        exact Or.inr h
  · rintro (⟨hv, hv'⟩ | h)
    · rw [hplace v hv, hplace v' hv']
    · rw [copied, copied, hsame v v' h, h]

mutual

/-- **Two copies are the same exactly when the labs are alike but for what is hidden in both.** -/
theorem masked_eq_iff : ∀ v v' : JsValue ν,
    walk (maskEdit numText names) v = walk (maskEdit numText names) v' ↔ Alike numText names v v'
  | list vs, v' => by
    cases v' with
    | list vs' =>
      rw [walk_list, walk_list, list.injEq, Alike]
      exact maskedList_eq_iff vs vs'
    | _ => exact iff_of_false (by simp) (by simp [Alike])
  | mapping es, v' => by
    cases v' with
    | mapping es' =>
      rw [walk_mapping, walk_mapping, mapping.injEq, Alike]
      exact maskedEntries_eq_iff es es'
    | _ => exact iff_of_false (by simp) (by simp [Alike])
  | null, v' => by cases v' <;> simp [Alike]
  | .bool b, v' => by cases v' <;> simp [Alike]
  | number n, v' => by cases v' <;> simp [Alike]
  | text t, v' => by cases v' <;> simp [Alike]

theorem maskedList_eq_iff : ∀ vs vs' : List (JsValue ν),
    walkList (maskEdit numText names) vs = walkList (maskEdit numText names) vs' ↔
      AlikeList numText names vs vs'
  | [], [] => by simp [AlikeList]
  | [], v' :: vs' => by simp [AlikeList, walkList]
  | v :: vs, [] => by simp [AlikeList, walkList]
  | v :: vs, v' :: vs' => by
    rw [walkList, walkList, List.cons.injEq, AlikeList]
    exact and_congr (masked_eq_iff v v') (maskedList_eq_iff vs vs')

theorem maskedEntries_eq_iff : ∀ es es' : List (Text × JsValue ν),
    walkEntries (maskEdit numText names) es = walkEntries (maskEdit numText names) es' ↔
      AlikeEntries numText names es es'
  | [], [] => by simp [AlikeEntries]
  | [], (k', v') :: es' => by
    rw [walkEntries_cons]
    simp [AlikeEntries, walkEntries]
  | (k, v) :: es, [] => by
    rw [walkEntries_cons]
    simp [AlikeEntries, walkEntries]
  | (k, v) :: es, (k', v') :: es' => by
    have hv := masked_eq_iff v v'
    have hes := maskedEntries_eq_iff es es'
    rw [walkEntries_cons, walkEntries_cons, List.cons.injEq, Prod.mk.injEq, AlikeEntries, and_assoc]
    refine and_congr_right fun hk => ?_
    subst hk
    rw [copied_eq_iff, hv, hes]

end

/-! ## Labs that differ in their secrets -/

/-- What `blanked` makes of an entry. -/
def blankEdit (names : List Text) (k : Text) (v : JsValue ν) : JsValue.Edit ν :=
  if k ∈ names ∧ filled v = true then .replace (.bool true) else .descend

theorem walkEntries_blank_cons (k : Text) (v : JsValue ν) (es : List (Text × JsValue ν)) :
    walkEntries (blankEdit names) ((k, v) :: es) =
      (k, if k ∈ names ∧ filled v = true then .bool true else walk (blankEdit names) v) ::
        walkEntries (blankEdit names) es := by
  by_cases h : k ∈ names ∧ filled v = true
  · rw [walkEntries, blankEdit, if_pos h, if_pos h]
  · rw [walkEntries, blankEdit, if_neg h, if_neg h]

/-- Outside of the password fields the labs are the same. -/
theorem SameButSecrets.outside_eq {lab lab' : JsValue ν} (h : SameButSecrets names lab lab') :
    outside names lab = outside names lab' := by
  have hblank : ∀ l : JsValue ν, outside names (blanked names l) = outside names l := by
    refine fun l => walk_walk (fun k v => ?_) l
    by_cases hk : k ∈ names
    · by_cases hf : filled v = true
      · rw [if_pos hk, if_pos ⟨hk, hf⟩, JsValue.Edit.andThen, if_pos hk]
      · rw [if_pos hk, if_neg fun h => hf h.2, JsValue.Edit.andThen, if_pos hk]
    · rw [if_neg hk, if_neg fun h => hk h.1, JsValue.Edit.andThen, if_neg hk]
  rw [← hblank lab, h, hblank lab']

mutual

/-- Each secret, as far out as possible, is one that the copy masks. -/
def Plain (numText : ν → Text) (names : List Text) : JsValue ν → Prop
  | list vs => PlainList numText names vs
  | mapping es => PlainEntries numText names es
  | _ => True

def PlainList (numText : ν → Text) (names : List Text) : List (JsValue ν) → Prop
  | [] => True
  | v :: vs => Plain numText names v ∧ PlainList numText names vs

def PlainEntries (numText : ν → Text) (names : List Text) : List (Text × JsValue ν) → Prop
  | [] => True
  | (k, v) :: es =>
    (k ∈ names ∧ filled v = true → masks numText names k v = true) ∧
      (¬ (k ∈ names ∧ filled v = true) → Plain numText names v) ∧ PlainEntries numText names es

end

theorem eq_of_not_filled {v : JsValue ν} (h : filled v = false) : v = null ∨ v = text [] := by
  cases v with
  | null => exact Or.inl rfl
  | text t => exact Or.inr (by simpa [filled] using h)
  | _ => cases h

mutual

theorem alike_of_plain : ∀ v v' : JsValue ν, walk (blankEdit names) v = walk (blankEdit names) v' →
    Plain numText names v → Plain numText names v' → Alike numText names v v'
  | list vs, v', h, hp, hp' => by
    cases v' with
    | list vs' =>
      rw [walk_list, walk_list, list.injEq] at h
      rw [Alike]
      exact alikeList_of_plain vs vs' h (by rwa [Plain] at hp) (by rwa [Plain] at hp')
    | _ => simp at h
  | mapping es, v', h, hp, hp' => by
    cases v' with
    | mapping es' =>
      rw [walk_mapping, walk_mapping, mapping.injEq] at h
      rw [Alike]
      exact alikeEntries_of_plain es es' h (by rwa [Plain] at hp) (by rwa [Plain] at hp')
    | _ => simp at h
  | null, v', h, _, _ => by cases v' <;> simp_all [Alike]
  | .bool b, v', h, _, _ => by cases v' <;> simp_all [Alike]
  | number n, v', h, _, _ => by cases v' <;> simp_all [Alike]
  | text t, v', h, _, _ => by cases v' <;> simp_all [Alike]

theorem alikeList_of_plain : ∀ vs vs' : List (JsValue ν),
    walkList (blankEdit names) vs = walkList (blankEdit names) vs' → PlainList numText names vs →
    PlainList numText names vs' → AlikeList numText names vs vs'
  | [], [], _, _, _ => by rw [AlikeList]; trivial
  | [], v' :: vs', h, _, _ => by simp [walkList] at h
  | v :: vs, [], h, _, _ => by simp [walkList] at h
  | v :: vs, v' :: vs', h, hp, hp' => by
    rw [walkList, walkList, List.cons.injEq] at h
    rw [PlainList] at hp hp'
    rw [AlikeList]
    exact ⟨alike_of_plain v v' h.1 hp.1 hp'.1, alikeList_of_plain vs vs' h.2 hp.2 hp'.2⟩

theorem alikeEntries_of_plain : ∀ es es' : List (Text × JsValue ν),
    walkEntries (blankEdit names) es = walkEntries (blankEdit names) es' → PlainEntries numText names es →
    PlainEntries numText names es' → AlikeEntries numText names es es'
  | [], [], _, _, _ => by rw [AlikeEntries]; trivial
  | [], (k', v') :: es', h, _, _ => by
    rw [walkEntries_blank_cons] at h
    simp [walkEntries] at h
  | (k, v) :: es, [], h, _, _ => by
    rw [walkEntries_blank_cons] at h
    simp [walkEntries] at h
  | (k, v) :: es, (k', v') :: es', h, hp, hp' => by
    rw [walkEntries_blank_cons, walkEntries_blank_cons, List.cons.injEq, Prod.mk.injEq] at h
    obtain ⟨⟨hk, hv⟩, hes⟩ := h
    subst hk
    rw [PlainEntries] at hp hp'
    have ihv := alike_of_plain v v'
    rw [AlikeEntries]
    refine ⟨rfl, ?_, alikeEntries_of_plain es es' hes hp.2.2 hp'.2.2⟩
    by_cases hf : k ∈ names ∧ filled v = true
    · by_cases hf' : k ∈ names ∧ filled v' = true
      · exact Or.inl ⟨Or.inl (hp.1 hf), Or.inl (hp'.1 hf')⟩
      · -- an empty value is not the mark of a secret
        have hempty : filled v' = false := by
          cases hb : filled v' with
          | true => exact absurd ⟨hf.1, hb⟩ hf'
          | false => rfl
        rw [if_pos hf, if_neg hf'] at hv
        rcases eq_of_not_filled hempty with rfl | rfl <;> cases hv
    · by_cases hf' : k ∈ names ∧ filled v' = true
      · have hempty : filled v = false := by
          cases hb : filled v with
          | true => exact absurd ⟨hf'.1, hb⟩ hf
          | false => rfl
        rw [if_neg hf, if_pos hf'] at hv
        rcases eq_of_not_filled hempty with rfl | rfl <;> cases hv
      · rw [if_neg hf, if_neg hf'] at hv
        exact Or.inr (ihv hv (hp.2.1 hf) (hp'.2.1 hf'))

end

end Facts

/-! ## Handing over -/

section Main

variable {numText : ν → Text} (schemas : List (JsValue ν)) {lab lab' : JsValue ν}

/-- **A lab is handed over without its secrets exactly when they are masked**: wherever two such labs
differ, both hold a text, number or boolean under a password field, and no text that begins with `??`
other than the placeholder. -/
theorem handedOver_iff (h : SameButSecrets (passwordFields schemas) lab lab') :
    HandedOver numText (passwordFields schemas) lab lab' ↔
      Alike numText (passwordFields schemas) (without proto lab) (without proto lab') ∧
        proto ∉ keys (outside (passwordFields schemas) lab) := by
  rw [HandedOver, outside_copy_iff, outside_copy_iff, ← h.outside_eq, and_self, withSecretPlaceholders_eq,
    withSecretPlaceholders_eq, masked_eq_iff]

/-- The schema of a password field. -/
def passwordSchema : JsValue Unit :=
  mapping [("name".toList, text "root_password".toList), ("type".toList, text "password".toList)]

/-- A lab with one password. -/
def labWith (password : JsValue Unit) : JsValue Unit :=
  mapping [("common".toList, mapping [("root_password".toList, password)])]

theorem handedOver_iff_one_password :
    HandedOver (fun _ => []) (passwordFields [passwordSchema]) (labWith (text ['a'])) (labWith (text ['b'])) ↔
      Alike (fun _ => []) (passwordFields [passwordSchema]) (without proto (labWith (text ['a'])))
        (without proto (labWith (text ['b']))) ∧
        proto ∉ keys (outside (passwordFields [passwordSchema]) (labWith (text ['a']))) :=
  handedOver_iff [passwordSchema] rfl

/-- A password that is a list is handed over as it stands. -/
theorem listed_password_handed_over :
    ¬ ∀ lab lab' : JsValue Unit, SameButSecrets (passwordFields [passwordSchema]) lab lab' →
      HandedOver (fun _ => []) (passwordFields [passwordSchema]) lab lab' := by
  intro h
  have heq := (h (labWith (list [text ['a']])) (labWith (list [text ['b']])) rfl).1
  have hcopy : ∀ t : Text, withSecretPlaceholders (fun _ => []) (passwordFields [passwordSchema])
      (labWith (list [text t])) = labWith (list [text t]) := fun _ => rfl
  rw [hcopy, hcopy] at heq
  simp [labWith] at heq

/-- Secrets that are texts, numbers or booleans are masked, but for a text that begins with `??`. -/
theorem handedOver_of_plain (h : SameButSecrets (passwordFields schemas) lab lab')
    (hp : Plain numText (passwordFields schemas) lab) (hp' : Plain numText (passwordFields schemas) lab')
    (hk : proto ∉ keys lab) (hk' : proto ∉ keys lab')
    (ho : proto ∉ keys (outside (passwordFields schemas) lab)) :
    HandedOver numText (passwordFields schemas) lab lab' := by
  refine (handedOver_iff schemas h).mpr ⟨?_, ho⟩
  rw [(without_eq_self_iff lab).mpr hk, (without_eq_self_iff lab').mpr hk']
  exact alike_of_plain lab lab' h hp hp'

end Main

end LabInABox.Web.Secrets
