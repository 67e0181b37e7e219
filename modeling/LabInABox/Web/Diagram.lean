import LabInABox.Idents
import LabInABox.Objects

/-!
# The architecture diagram

Model of `makeIdSanitizer`, `diagramLabel` and `buildMermaidDiagram` (`webui/htdocs/app.js`): the lines of
the mermaid diagram of a lab, and what they draw.

* A node or a kcluster is the fields the diagram reads, as `String` writes them; a falsy one is `none`, and
  the configuration that is null is one without fields.
* Identifiers are given in the order the lines are written, so `rawLines` is the diagram over the raw
  strings, and `sanitizeLines` gives the identifiers from the first line to the last.
* `Drawing` is what the lines draw: subgraphs, nodes with the subgraph around them, boxes and links.

Results:
* `sanitizeLines_eq`: one assignment of identifiers serves all lines.
* `drawing_eq`: what a diagram draws.
* `shownExactly_iff`: exactly when that is the lab.
-/

namespace LabInABox.Web.Diagram

open Idents

/-! ## The lab -/

/-- An entry of an add-on list: a name, or a mapping from the name to overrides. -/
inductive Entry
  | plain (name : Text)
  | overridden (name : Text)

/-- The name of the add-on. -/
def Entry.name : Entry → Text
  | plain name => name
  | overridden name => name

/-- `String(entry)`. -/
def Entry.shown : Entry → Text
  | plain name => name
  | overridden _ => "[object Object]".toList

/-- A node. -/
structure NodeCfg where
  kcluster : Option Text
  myip : Option Text
  existing : Bool
  addons : List Entry

/-- A kcluster. -/
structure CluCfg where
  clu_type : Option Text
  addons : List Entry

/-- A lab: its nodes and its kclusters, in the order of their keys. -/
structure Lab where
  nodes : Obj Text NodeCfg
  kclusters : Obj Text CluCfg

/-! ## Lines -/

/-- A line of a diagram, over what stands for the identifiers. -/
inductive Line (κ : Type)
  | graph
  | subgraph (id : κ) (label : Text)
  | node (inside : Bool) (id : κ) (label : Text)
  | close
  | box (id : κ) (label : Text)
  | link (owner id : κ)
  | classDef
  | classes (ids : List κ)

namespace Line

variable {κ κ' : Type}

/-- The line with other identifiers. -/
def map (f : κ → κ') : Line κ → Line κ'
  | graph => graph
  | subgraph id label => subgraph (f id) label
  | node inside id label => node inside (f id) label
  | close => close
  | box id label => box (f id) label
  | link owner id => link (f owner) (f id)
  | classDef => classDef
  | classes ids => classes (ids.map f)

/-- What the line needs identifiers for. -/
def keys : Line κ → List κ
  | subgraph id _ => [id]
  | node _ id _ => [id]
  | box id _ => [id]
  | link owner id => [owner, id]
  | classes ids => ids
  | _ => []

/-- The line as it is written. -/
def text : Line Text → Text
  | graph => "graph TB".toList
  | subgraph id label => "  subgraph ".toList ++ id ++ "[\"".toList ++ label ++ "\"]".toList
  | node inside id label =>
    (if inside then "    ".toList else "  ".toList) ++ id ++ "[\"".toList ++ label ++ "\"]".toList
  | close => "  end".toList
  | box id label => "  ".toList ++ id ++ "([\"".toList ++ label ++ "\"])".toList
  | link owner id => "  ".toList ++ owner ++ " -.-> ".toList ++ id
  | classDef => "  classDef existingNode stroke-dasharray: 4 3,stroke-width:2px;".toList
  | classes ids => "  class ".toList ++ [','].intercalate ids ++ " existingNode;".toList

end Line

/-- `diagramLabel(s)`. -/
def diagramLabel (s : Text) : Text := s.map fun c => if c = '"' ∨ c = '\r' ∨ c = '\n' then '\'' else c

/-- The identifier a raw string would like; a character beyond the first plane is two for a script. -/
def baseOf (key : Text) : Text :=
  "n_".toList ++ key.flatMap fun c =>
    if c.isAlphanum ∨ c = '_' then [c] else if c.toNat < 0x10000 then ['_'] else ['_', '_']

/-- `sanitizeId`, for each line in turn: its raw strings are seen, and it is written with their identifiers. -/
def sanitizeLines : Table → List (Line Text) → List (Line Text)
  | _, [] => []
  | t, line :: lines =>
    let t := t.addAll baseOf line.keys
    line.map t.identOf :: sanitizeLines t lines

/-! ## The diagram -/

/-- What the raw string of a kcluster or a node is made of. -/
inductive Tag
  | cluster (name : Text)
  | node (name : Text)

/-- The name that is shown. -/
def Tag.name : Tag → Text
  | cluster name => name
  | node name => name

/-- The raw string. -/
def Tag.key : Tag → Text
  | cluster name => "clu_".toList ++ name
  | node name => name

/-- An owner of add-ons. -/
structure Owner where
  tag : Tag
  addons : List Entry

/-- The raw string of a box. -/
def Owner.boxKey (o : Owner) (i : Nat) (e : Entry) : Text :=
  o.tag.name ++ "_addon_".toList ++ Nat.toDigits 10 i ++ '_' :: e.shown

/-- `addonBox(ownerRawName, ownerId, addons)`. -/
def addonBox (o : Owner) : List (Line Text) :=
  (o.addons.mapIdx fun i e =>
    [Line.box (o.boxKey i e) (diagramLabel e.shown), .link o.tag.key (o.boxKey i e)]).flatten

/-- The label of a node. -/
def nodeLabel (n : Text × NodeCfg) : Text :=
  diagramLabel n.1 ++ (n.2.myip.elim [] fun ip => "<br/>".toList ++ diagramLabel ip)

/-- The label of a kcluster. -/
def clusterLabel (c : Text × CluCfg) : Text :=
  diagramLabel c.1 ++ " (".toList ++ diagramLabel (c.2.clu_type.getD ['?']) ++ [')']

/-- A kcluster as the owner of its add-ons. -/
def clusterOwner (c : Text × CluCfg) : Owner := ⟨.cluster c.1, c.2.addons⟩

/-- A node as the owner of its add-ons. -/
def nodeOwner (n : Text × NodeCfg) : Owner := ⟨.node n.1, n.2.addons⟩

namespace Lab

variable (lab : Lab)

/-- The nodes of a kcluster. -/
def members (name : Text) : List (Text × NodeCfg) :=
  lab.nodes.entries.filter fun n => decide (n.2.kcluster = some name)

/-- The nodes that no kcluster places. -/
def standalone : List (Text × NodeCfg) :=
  lab.nodes.entries.filter fun n => decide (∀ name ∈ lab.kclusters.keys, n.2.kcluster ≠ some name)

/-- The lines of a kcluster. -/
def clusterLines (c : Text × CluCfg) : List (Line Text) :=
  .subgraph (Tag.cluster c.1).key (clusterLabel c) ::
    (lab.members c.1).map (fun n => .node true (Tag.node n.1).key (nodeLabel n)) ++ .close ::
    addonBox (clusterOwner c)

/-- The lines of a node outside of the kclusters. -/
def nodeLines (n : Text × NodeCfg) : List (Line Text) :=
  .node false (Tag.node n.1).key (nodeLabel n) :: addonBox (nodeOwner n)

/-- The nodes in the order they are drawn. -/
def placedNodes : List (Text × NodeCfg) := lab.kclusters.keys.flatMap lab.members ++ lab.standalone

/-- The lines that mark the hosts which are there already. -/
def existingLines : List (Line Text) :=
  let existing := lab.placedNodes.filter fun n => n.2.existing
  if existing = [] then [] else [.classDef, .classes (existing.map fun n => (Tag.node n.1).key)]

/-- The lines of a diagram, over the raw strings. -/
def rawLines : List (Line Text) :=
  .graph :: lab.kclusters.entries.flatMap lab.clusterLines ++ lab.standalone.flatMap nodeLines ++
    lab.existingLines

/-- The lines of a diagram; none without a node. -/
def lines : Option (List (Line Text)) :=
  if lab.nodes.entries.isEmpty then none else some (sanitizeLines Table.empty lab.rawLines)

/-- `buildMermaidDiagram(lab)`. -/
def buildMermaidDiagram : Option Text :=
  lab.lines.map fun lines => ['\n'].intercalate (lines.map Line.text)

end Lab

/-! ## Drawings -/

/-- A subgraph: its identifier and label, and the identifiers and labels of the nodes inside. -/
structure Subgraph where
  id : Text
  label : Text
  members : List (Text × Text)

/-- What a diagram shows: subgraphs, nodes outside of them, boxes, and links from owners to boxes. -/
structure Drawing where
  subgraphs : List Subgraph
  nodes : List (Text × Text)
  boxes : List (Text × Text)
  links : List (Text × Text)

/-- Nothing. -/
def Drawing.empty : Drawing := ⟨[], [], [], []⟩

/-- A drawing, and the subgraph that is open. -/
structure Canvas where
  drawing : Drawing
  inside : Option Subgraph

/-- The next line is drawn. -/
def Canvas.draw (c : Canvas) : Line Text → Canvas
  | .subgraph id label => ⟨c.drawing, some ⟨id, label, []⟩⟩
  | .node _ id label =>
    match c.inside with
    | some s => ⟨c.drawing, some ⟨s.id, s.label, s.members ++ [(id, label)]⟩⟩
    | none => ⟨⟨c.drawing.subgraphs, c.drawing.nodes ++ [(id, label)], c.drawing.boxes, c.drawing.links⟩, none⟩
  | .close =>
    ⟨⟨c.drawing.subgraphs ++ c.inside.toList, c.drawing.nodes, c.drawing.boxes, c.drawing.links⟩, none⟩
  | .box id label =>
    ⟨⟨c.drawing.subgraphs, c.drawing.nodes, c.drawing.boxes ++ [(id, label)], c.drawing.links⟩, c.inside⟩
  | .link owner id =>
    ⟨⟨c.drawing.subgraphs, c.drawing.nodes, c.drawing.boxes, c.drawing.links ++ [(owner, id)]⟩, c.inside⟩
  | _ => c

/-- What the lines draw. -/
def drawingOf (lines : List (Line Text)) : Drawing := (lines.foldl Canvas.draw ⟨.empty, none⟩).drawing

namespace Lab

variable (lab : Lab)

/-- What the diagram of a lab draws. -/
def drawing : Drawing := lab.lines.elim .empty drawingOf

/-- The owners of add-ons. -/
def owners : List Owner := lab.kclusters.entries.map clusterOwner ++ lab.nodes.entries.map nodeOwner

/-- The owners whose add-ons get boxes. -/
def drawnOwners : List Owner := lab.kclusters.entries.map clusterOwner ++ lab.standalone.map nodeOwner

/-- The drawing shows the lab: `ident` is the identifier of a kcluster or a node, `boxIdent` that of the box of
one of its add-ons. -/
structure Shown (d : Drawing) (ident : Owner → Text) (boxIdent : Owner → Nat → Text) : Prop where
  distinct : (lab.owners.map ident ++ lab.owners.flatMap fun o => o.addons.mapIdx fun i _ => boxIdent o i).Nodup
  subgraphs : d.subgraphs.Perm (lab.kclusters.entries.map fun c => ⟨ident (clusterOwner c), clusterLabel c,
    (lab.members c.1).map fun n => (ident (nodeOwner n), nodeLabel n)⟩)
  nodes : d.nodes.Perm (lab.standalone.map fun n => (ident (nodeOwner n), nodeLabel n))
  boxes : d.boxes.Perm
    (lab.owners.flatMap fun o => o.addons.mapIdx fun i e => (boxIdent o i, diagramLabel e.name))
  links : d.links.Perm (lab.owners.flatMap fun o => o.addons.mapIdx fun i _ => (ident o, boxIdent o i))

/-- The diagram shows the lab exactly. -/
def ShownExactly : Prop := ∃ ident boxIdent, lab.Shown lab.drawing ident boxIdent

/-- The raw strings of everything that is to be drawn. -/
def rawNames : List Text :=
  lab.owners.map (fun o => o.tag.key) ++ lab.owners.flatMap fun o => o.addons.mapIdx o.boxKey

/-- There is a node to draw, the nodes of kclusters have no add-ons, no add-on is written as an object, and all
raw strings are different. -/
structure Drawable : Prop where
  nonempty : lab.kclusters.entries = [] ∨ lab.nodes.entries ≠ []
  members : ∀ n ∈ lab.nodes.entries, n ∉ lab.standalone → n.2.addons = []
  shown : ∀ o ∈ lab.owners, ∀ e ∈ o.addons, e.shown = e.name
  rawNames : lab.rawNames.Nodup

end Lab

/-! ## One assignment of identifiers -/

theorem Line.map_congr {κ κ' : Type} {f g : κ → κ'} {line : Line κ} (h : ∀ k ∈ line.keys, f k = g k) :
    line.map f = line.map g := by
  cases line with
  | classes ids =>
    simp only [Line.map, Line.classes.injEq]
    exact List.map_congr_left h
  | _ => simp_all [Line.map, Line.keys]

/-- **One assignment of identifiers serves all lines**, and it tells raw strings apart. -/
theorem sanitizeLines_eq (t : Table) (lines : List (Line Text)) :
    sanitizeLines t lines = lines.map (Line.map (t.addAll baseOf (lines.flatMap Line.keys)).identOf) := by
  induction lines generalizing t with
  | nil => rfl
  | cons line lines ih =>
    have hall : t.addAll baseOf ((line :: lines).flatMap Line.keys) =
        (t.addAll baseOf line.keys).addAll baseOf (lines.flatMap Line.keys) := List.foldl_append ..
    have hmem : ∀ k ∈ line.keys, k ∈ (t.addAll baseOf line.keys).entries.map Prod.fst := by
      obtain ⟨-, -, h⟩ := addAll_entries baseOf t line.keys
      exact h
    rw [sanitizeLines, ih, List.map_cons, hall, Line.map_congr fun k hk => (identOf_addAll (hmem k hk) _).symm]

/-! ## What is drawn -/

/-- Drawings side by side. -/
def Drawing.append (d d' : Drawing) : Drawing :=
  ⟨d.subgraphs ++ d'.subgraphs, d.nodes ++ d'.nodes, d.boxes ++ d'.boxes, d.links ++ d'.links⟩

/-- The drawings of a list of things. -/
def Drawing.all {α : Type} (l : List α) (f : α → Drawing) : Drawing :=
  ⟨l.flatMap fun x => (f x).subgraphs, l.flatMap fun x => (f x).nodes, l.flatMap fun x => (f x).boxes,
    l.flatMap fun x => (f x).links⟩

/-- Outside of subgraphs, the lines draw `d`. -/
def Draws (lines : List (Line Text)) (d : Drawing) : Prop :=
  ∀ d₀, lines.foldl Canvas.draw ⟨d₀, none⟩ = ⟨d₀.append d, none⟩

theorem append_empty (d : Drawing) : d.append .empty = d := by
  simp [Drawing.append, Drawing.empty]

theorem Draws.append {l l' : List (Line Text)} {d d' : Drawing} (h : Draws l d) (h' : Draws l' d') :
    Draws (l ++ l') (d.append d') := by
  intro d₀
  rw [List.foldl_append, h, h']
  simp [Drawing.append, List.append_assoc]

theorem Draws.flatMap {α : Type} {l : List α} {g : α → List (Line Text)} {f : α → Drawing}
    (h : ∀ x ∈ l, Draws (g x) (f x)) : Draws (l.flatMap g) (.all l f) := by
  induction l with
  | nil =>
    intro d₀
    exact congrArg (Canvas.mk · none) (append_empty d₀).symm
  | cons x l ih =>
    have hcons : Drawing.all (x :: l) f = (f x).append (.all l f) := by
      simp [Drawing.all, Drawing.append]
    rw [List.flatMap_cons, hcons]
    exact (h x List.mem_cons_self).append (ih fun y hy => h y (List.mem_cons_of_mem x hy))

section Blocks

variable (f : Text → Text)

/-- The boxes of an owner, and their links. -/
def ownerDrawing (o : Owner) : Drawing :=
  ⟨[], [], o.addons.mapIdx fun i e => (f (o.boxKey i e), diagramLabel e.shown),
    o.addons.mapIdx fun i e => (f o.tag.key, f (o.boxKey i e))⟩

/-- The subgraph of a kcluster. -/
def Lab.subgraphOf (lab : Lab) (c : Text × CluCfg) : Subgraph :=
  ⟨f (Tag.cluster c.1).key, clusterLabel c, (lab.members c.1).map fun n => (f (Tag.node n.1).key, nodeLabel n)⟩

/-- A drawing of the lab, with identifiers for the raw strings. -/
def Lab.drawingWith (lab : Lab) : Drawing :=
  ⟨lab.kclusters.entries.map (lab.subgraphOf f), lab.standalone.map fun n => (f (Tag.node n.1).key, nodeLabel n),
    lab.drawnOwners.flatMap fun o => o.addons.mapIdx fun i e => (f (o.boxKey i e), diagramLabel e.shown),
    lab.drawnOwners.flatMap fun o => o.addons.mapIdx fun i e => (f o.tag.key, f (o.boxKey i e))⟩

variable {f}

theorem draws_addonBox (o : Owner) : Draws ((addonBox o).map (Line.map f)) (ownerDrawing f o) := by
  have hgo : ∀ (es : List Entry) (key : Nat → Entry → Text) (d₀ : Drawing),
      ((es.mapIdx fun i e =>
        [Line.box (key i e) (diagramLabel e.shown), .link o.tag.key (key i e)]).flatten.map (Line.map f)).foldl
        Canvas.draw ⟨d₀, none⟩ =
      ⟨d₀.append ⟨[], [], es.mapIdx fun i e => (f (key i e), diagramLabel e.shown),
        es.mapIdx fun i e => (f o.tag.key, f (key i e))⟩, none⟩ := by
    intro es
    induction es with
    | nil =>
      intro key d₀
      exact congrArg (Canvas.mk · none) (append_empty d₀).symm
    | cons e es ih =>
      intro key d₀
      simp only [List.mapIdx_cons, List.flatten_cons, List.map_cons, Line.map, List.cons_append,
        List.nil_append, List.foldl_cons, Canvas.draw]
      rw [ih fun i e => key (i + 1) e]
      simp [Drawing.append]
  exact hgo o.addons o.boxKey

theorem draws_nodeLines (n : Text × NodeCfg) : Draws ((Lab.nodeLines n).map (Line.map f))
    (Drawing.append ⟨[], [(f (Tag.node n.1).key, nodeLabel n)], [], []⟩ (ownerDrawing f (nodeOwner n))) := by
  have hnode : Draws [Line.node false (f (Tag.node n.1).key) (nodeLabel n)]
      ⟨[], [(f (Tag.node n.1).key, nodeLabel n)], [], []⟩ := fun d₀ => by simp [Canvas.draw, Drawing.append]
  exact hnode.append (draws_addonBox (nodeOwner n))

theorem draws_clusterLines (lab : Lab) (c : Text × CluCfg) : Draws ((lab.clusterLines c).map (Line.map f))
    (Drawing.append ⟨[lab.subgraphOf f c], [], [], []⟩ (ownerDrawing f (clusterOwner c))) := by
  have hmembers : ∀ (ns : List (Text × NodeCfg)) (d₀ : Drawing) (s : Subgraph),
      ((ns.map fun n => Line.node true (Tag.node n.1).key (nodeLabel n)).map (Line.map f)).foldl Canvas.draw
        ⟨d₀, some s⟩ = ⟨d₀, some ⟨s.id, s.label, s.members ++ ns.map fun n => (f (Tag.node n.1).key, nodeLabel n)⟩⟩ := by
    intro ns
    induction ns with
    | nil => intro d₀ s; simp
    | cons n ns ih =>
      intro d₀ s
      rw [List.map_cons, List.map_cons, List.foldl_cons]
      have hdraw : Canvas.draw ⟨d₀, some s⟩ (Line.map f (.node true (Tag.node n.1).key (nodeLabel n))) =
        ⟨d₀, some ⟨s.id, s.label, s.members ++ [(f (Tag.node n.1).key, nodeLabel n)]⟩⟩ := rfl
      rw [hdraw, ih]
      simp
  have hsub : Draws ((Line.subgraph (Tag.cluster c.1).key (clusterLabel c) ::
      ((lab.members c.1).map (fun n : Text × NodeCfg => Line.node true (Tag.node n.1).key (nodeLabel n)) ++
        [Line.close])).map (Line.map f)) ⟨[lab.subgraphOf f c], [], [], []⟩ := by
    intro d₀
    rw [List.map_cons, List.map_append, List.foldl_cons, List.foldl_append]
    have hopen : Canvas.draw ⟨d₀, none⟩ (Line.map f (.subgraph (Tag.cluster c.1).key (clusterLabel c))) =
        ⟨d₀, some ⟨f (Tag.cluster c.1).key, clusterLabel c, []⟩⟩ := rfl
    rw [hopen, hmembers]
    simp [Canvas.draw, Line.map, Drawing.append, Lab.subgraphOf]
  have hlines : lab.clusterLines c = (Line.subgraph (Tag.cluster c.1).key (clusterLabel c) ::
      ((lab.members c.1).map (fun n : Text × NodeCfg => Line.node true (Tag.node n.1).key (nodeLabel n)) ++
        [Line.close])) ++ addonBox (clusterOwner c) := by
    simp [Lab.clusterLines]
  rw [hlines, List.map_append]
  exact hsub.append (draws_addonBox (clusterOwner c))

/-- **What the lines of a lab draw.** -/
theorem drawingOf_rawLines (lab : Lab) (f : Text → Text) :
    drawingOf (lab.rawLines.map (Line.map f)) = lab.drawingWith f := by
  have hexisting : Draws (lab.existingLines.map (Line.map f)) .empty := by
    intro d₀
    rw [append_empty]
    unfold Lab.existingLines
    by_cases h : (lab.placedNodes.filter fun n => n.2.existing) = []
    · simp [h]
    · simp [h, Line.map, Canvas.draw]
  have hclusters : Draws ((lab.kclusters.entries.flatMap lab.clusterLines).map (Line.map f))
      (.all lab.kclusters.entries fun c =>
        Drawing.append ⟨[lab.subgraphOf f c], [], [], []⟩ (ownerDrawing f (clusterOwner c))) := by
    rw [List.map_flatMap]
    exact Draws.flatMap fun c _ => draws_clusterLines lab c
  have hnodes : Draws ((lab.standalone.flatMap Lab.nodeLines).map (Line.map f)) (.all lab.standalone fun n =>
      Drawing.append ⟨[], [(f (Tag.node n.1).key, nodeLabel n)], [], []⟩ (ownerDrawing f (nodeOwner n))) := by
    rw [List.map_flatMap]
    exact Draws.flatMap fun n _ => draws_nodeLines n
  have hall := (hclusters.append hnodes).append hexisting
  have hlines : lab.rawLines.map (Line.map f) = .graph ::
      ((lab.kclusters.entries.flatMap lab.clusterLines).map (Line.map f) ++
        (lab.standalone.flatMap Lab.nodeLines).map (Line.map f) ++ lab.existingLines.map (Line.map f)) := by
    simp [Lab.rawLines, Line.map]
  rw [drawingOf, hlines, List.foldl_cons]
  rw [show Canvas.draw ⟨Drawing.empty, none⟩ .graph = ⟨Drawing.empty, none⟩ from rfl, hall]
  simp [Drawing.append, Drawing.empty, Drawing.all, ownerDrawing, Lab.drawingWith, Lab.drawnOwners,
    List.flatMap_map, ← List.map_eq_flatMap]

end Blocks

/-! ## The nodes and their owners -/

/-- The entries a test selects for one of different keys are those it selects for each of them. -/
theorem flatMap_filter_perm {α : Type} (l : List α) (g : α → Option Text) {ks : List Text} (h : ks.Nodup) :
    (ks.flatMap fun k => l.filter fun x => decide (g x = some k)).Perm
      (l.filter fun x => !decide (∀ k ∈ ks, g x ≠ some k)) := by
  induction ks with
  | nil => simp
  | cons k ks ih =>
    obtain ⟨hk, hks⟩ := List.nodup_cons.mp h
    have hsplit := List.filter_append_perm (fun x => decide (g x = some k))
      (l.filter fun x => !decide (∀ k' ∈ k :: ks, g x ≠ some k'))
    rw [List.filter_filter, List.filter_filter] at hsplit
    rw [List.flatMap_cons]
    refine (List.Perm.append (.of_eq ?_) ((ih hks).trans (.of_eq ?_))).trans hsplit
    · refine List.filter_congr fun x _ => ?_
      by_cases hx : g x = some k <;> simp [hx]
    · refine List.filter_congr fun x _ => ?_
      by_cases hx : g x = some k
      · have hne : ∀ k' ∈ ks, k ≠ k' := fun k' hk' e => hk (e ▸ hk')
        simpa [hx] using hne
      · simp [hx]

namespace Lab

variable (lab : Lab)

/-- The nodes that a kcluster places. -/
def covered : List (Text × NodeCfg) :=
  lab.nodes.entries.filter fun n => !decide (∀ name ∈ lab.kclusters.keys, n.2.kcluster ≠ some name)

theorem placedNodes_perm : lab.placedNodes.Perm lab.nodes.entries := by
  have hcovered := flatMap_filter_perm lab.nodes.entries (fun n => n.2.kcluster) lab.kclusters.nodup
  have hall := List.filter_append_perm (fun n => decide (∀ name ∈ lab.kclusters.keys, n.2.kcluster ≠ some name))
    lab.nodes.entries
  exact (List.Perm.append_right _ hcovered).trans (List.perm_append_comm.trans hall)

/-- What is said of the owners is said of those that are drawn and of the nodes in kclusters. -/
theorem owners_flatMap_perm {α : Type} (X : Owner → List α) : (lab.owners.flatMap X).Perm
    (lab.drawnOwners.flatMap X ++ (lab.covered.map nodeOwner).flatMap X) := by
  have hall := List.filter_append_perm (fun n => decide (∀ name ∈ lab.kclusters.keys, n.2.kcluster ≠ some name))
    lab.nodes.entries
  have hnodes := (hall.symm.map nodeOwner).flatMap_right X
  rw [List.map_append, List.flatMap_append] at hnodes
  rw [owners, drawnOwners, List.flatMap_append, List.flatMap_append, List.append_assoc]
  exact hnodes.append_left _

theorem mem_covered {n : Text × NodeCfg} : n ∈ lab.covered ↔ n ∈ lab.nodes.entries ∧ n ∉ lab.standalone := by
  simp only [covered, standalone, List.mem_filter, Bool.not_eq_true', decide_eq_false_iff_not, decide_eq_true_eq,
    not_and]
  exact ⟨fun h => ⟨h.1, fun _ => h.2⟩, fun h => ⟨h.1, h.2 h.1⟩⟩

variable {lab}

/-- Without add-ons in kclusters' nodes, the drawn owners have them all. -/
theorem drawn_flatMap_perm {α : Type} {X : Owner → List α} (h : ∀ n ∈ lab.covered, X (nodeOwner n) = []) :
    (lab.drawnOwners.flatMap X).Perm (lab.owners.flatMap X) := by
  have hnone : (lab.covered.map nodeOwner).flatMap X = [] := List.flatMap_eq_nil_iff.mpr fun o ho => by
    obtain ⟨n, hn, rfl⟩ := List.mem_map.mp ho
    exact h n hn
  have hperm := lab.owners_flatMap_perm X
  rw [hnone, List.append_nil] at hperm
  exact hperm.symm

theorem drawing_of_nil (h : lab.nodes.entries = []) : lab.drawing = .empty := by
  rw [drawing, lines, if_pos (by simp [h])]
  rfl

/-- The raw strings have identifiers of their own. -/
theorem exists_drawing (h : lab.nodes.entries ≠ []) : ∃ f : Text → Text,
    (∀ a ∈ lab.rawLines.flatMap Line.keys, ∀ b ∈ lab.rawLines.flatMap Line.keys, f a = f b → a = b) ∧
      lab.drawing = lab.drawingWith f := by
  obtain ⟨-, -, hmem⟩ := addAll_entries baseOf .empty (lab.rawLines.flatMap Line.keys)
  refine ⟨_, fun a ha b hb => identOf_injective (hmem a ha) (hmem b hb), ?_⟩
  rw [drawing, lines, if_neg (by simpa using h), Option.elim_some, sanitizeLines_eq]
  exact drawingOf_rawLines lab _

/-- The raw strings of the owners are on the lines. -/
theorem key_mem {o : Owner} (ho : o ∈ lab.owners) : o.tag.key ∈ lab.rawLines.flatMap Line.keys := by
  rw [owners, List.mem_append, List.mem_map, List.mem_map] at ho
  simp only [rawLines, List.flatMap_cons, List.flatMap_append, List.mem_append, List.mem_flatMap, List.cons_append]
  rcases ho with ⟨c, hc, rfl⟩ | ⟨n, hn, rfl⟩
  · exact Or.inr (Or.inl (Or.inl ⟨_, ⟨c, hc, List.mem_cons_self⟩, List.mem_cons_self⟩))
  · rcases List.mem_append.mp (lab.placedNodes_perm.mem_iff.mpr hn) with hm | hm
    · obtain ⟨name, hname, hmember⟩ := List.mem_flatMap.mp hm
      obtain ⟨c, hc, rfl⟩ := List.mem_map.mp hname
      have hline : Line.node true (Tag.node n.1).key (nodeLabel n) ∈ lab.clusterLines c := by
        unfold clusterLines
        simp only [List.cons_append, List.mem_cons, List.mem_append, List.mem_map]
        exact Or.inr (Or.inl ⟨n, hmember, rfl⟩)
      exact Or.inr (Or.inl (Or.inl ⟨_, ⟨c, hc, hline⟩, List.mem_cons_self⟩))
    · exact Or.inr (Or.inl (Or.inr ⟨_, ⟨n, hm, List.mem_cons_self⟩, List.mem_cons_self⟩))

/-- The raw strings of the boxes are on the lines. -/
theorem boxKey_mem {o : Owner} (ho : o ∈ lab.drawnOwners) :
    ∀ key ∈ o.addons.mapIdx o.boxKey, key ∈ lab.rawLines.flatMap Line.keys := by
  intro key hkey
  obtain ⟨i, hi, rfl⟩ := List.mem_mapIdx.mp hkey
  have hbox : Line.box (o.boxKey i o.addons[i]) (diagramLabel o.addons[i].shown) ∈ addonBox o := by
    unfold addonBox
    exact List.mem_flatten.mpr ⟨_, List.mem_mapIdx.mpr ⟨i, hi, rfl⟩, List.mem_cons_self⟩
  rw [drawnOwners, List.mem_append, List.mem_map, List.mem_map] at ho
  simp only [rawLines, List.flatMap_cons, List.flatMap_append, List.mem_append, List.mem_flatMap, List.cons_append]
  rcases ho with ⟨c, hc, rfl⟩ | ⟨n, hn, rfl⟩
  · have hline : Line.box _ _ ∈ lab.clusterLines c :=
      List.mem_append_right _ (List.mem_cons_of_mem _ hbox)
    exact Or.inr (Or.inl (Or.inl ⟨_, ⟨c, hc, hline⟩, List.mem_cons_self⟩))
  · exact Or.inr (Or.inl (Or.inr ⟨_, ⟨n, hn, List.mem_cons_of_mem _ hbox⟩, List.mem_cons_self⟩))

end Lab
/-! ## Shown exactly -/

/-- Where one function is that of another or a fixed value, they give the same values only if they are the
same. -/
theorem map_eq_of_perm {α : Type} {l : List α} {f g : α → Text} {c : Text} (h : ∀ x ∈ l, f x = g x ∨ f x = c)
    (hperm : (l.map f).Perm (l.map g)) : ∀ x ∈ l, f x = g x := by
  have hcount : (l.filter fun x => g x == c).length = (l.filter fun x => f x == c).length := by
    have := hperm.count_eq c
    rw [List.count_eq_countP, List.count_eq_countP, List.countP_map, List.countP_map,
      List.countP_eq_length_filter, List.countP_eq_length_filter] at this
    exact this.symm
  have hsub : (l.filter fun x => f x == c).filter (fun x => g x == c) = l.filter fun x => g x == c := by
    rw [List.filter_filter]
    refine List.filter_congr fun x hx => ?_
    by_cases hg : g x = c
    · have hf : f x = c := (h x hx).elim (fun e => e.trans hg) id
      simp [hg, hf]
    · simp [hg]
  intro x hx
  rcases h x hx with he | hc
  · exact he
  · have hall := List.length_filter_eq_length_iff.mp (by rw [hsub, hcount])
    have hg := hall x (List.mem_filter.mpr ⟨hx, by simp [hc]⟩)
    rw [hc, beq_iff_eq.mp hg]

/-- A label has no double quotes and line breaks to lose. -/
theorem eq_of_diagramLabel {s t : Text} (ht : '\'' ∉ t) (h : diagramLabel s = t) : s = t := by
  subst h
  refine (List.map_id s).symm.trans (List.map_congr_left fun c hc => ?_)
  have hne : (if c = '"' ∨ c = '\r' ∨ c = '\n' then '\'' else c) ≠ '\'' := fun e =>
    ht (List.mem_map.mpr ⟨c, hc, e⟩)
  by_cases hq : c = '"' ∨ c = '\r' ∨ c = '\n'
  · rw [if_pos hq] at hne
    exact absurd rfl hne
  · rw [if_neg hq, id]

theorem mapIdx_const {α β : Type} (l : List α) (g : α → β) : (l.mapIdx fun _ x => g x) = l.map g :=
  List.ext_getElem (by simp) fun i _ _ => by simp

theorem map_mapIdx {α β γ : Type} (l : List α) (g : Nat → α → β) (h : β → γ) :
    (l.mapIdx g).map h = l.mapIdx fun i x => h (g i x) :=
  List.ext_getElem (by simp) fun i _ _ => by simp

namespace Lab

variable {lab : Lab}

/-- The labels of boxes are those of the entries, in any order. -/
theorem map_snd_boxes (os : List Owner) (id : Owner → Nat → Entry → Text) (label : Entry → Text) :
    (os.flatMap fun o => o.addons.mapIdx fun i e => (id o i e, label e)).map Prod.snd =
      (os.flatMap Owner.addons).map label := by
  rw [List.map_flatMap, List.map_flatMap]
  refine List.flatMap_congr fun o _ => ?_
  rw [map_mapIdx]
  exact mapIdx_const o.addons label

theorem map_fst_boxes (os : List Owner) (id : Owner → Nat → Entry → Text) (label : Entry → Text) :
    (os.flatMap fun o => o.addons.mapIdx fun i e => (id o i e, label e)).map Prod.fst =
      os.flatMap fun o => o.addons.mapIdx fun i e => id o i e := by
  rw [List.map_flatMap]
  refine List.flatMap_congr fun o _ => ?_
  rw [map_mapIdx]

/-- A drawing with as many boxes as there are entries leaves no node of a kcluster with add-ons. -/
theorem addons_of_length {α β : Type} {B : Owner → Nat → Entry → α} {B' : Owner → Nat → Entry → β}
    (h : (lab.drawnOwners.flatMap fun o => o.addons.mapIdx (B o)).length =
      (lab.owners.flatMap fun o => o.addons.mapIdx (B' o)).length) :
    ∀ n ∈ lab.covered, n.2.addons = [] := by
  have hlen : ∀ os : List Owner, (os.flatMap fun o => o.addons.mapIdx (B o)).length = (os.flatMap Owner.addons).length ∧
      (os.flatMap fun o => o.addons.mapIdx (B' o)).length = (os.flatMap Owner.addons).length := fun os => by
    simp [List.length_flatMap]
  have hall := (lab.owners_flatMap_perm Owner.addons).length_eq
  rw [(hlen _).1, (hlen _).2, hall, List.length_append] at h
  have hnil : (lab.covered.map nodeOwner).flatMap Owner.addons = [] := List.eq_nil_of_length_eq_zero (by omega)
  exact fun n hn => List.flatMap_eq_nil_iff.mp hnil (nodeOwner n) (List.mem_map_of_mem hn)

theorem owners_of_nil (hc : lab.kclusters.entries = []) (hn : lab.nodes.entries = []) : lab.owners = [] := by
  rw [owners, hc, hn]
  rfl

/-- A lab without nodes is shown when it has no kclusters. -/
theorem shownExactly_of_nil (h : lab.nodes.entries = []) : lab.ShownExactly ↔ lab.Drawable := by
  constructor
  · rintro ⟨ident, boxIdent, hshown⟩
    have hlen := hshown.subgraphs.length_eq
    rw [drawing_of_nil h, List.length_map] at hlen
    have hc : lab.kclusters.entries = [] := List.eq_nil_of_length_eq_zero hlen.symm
    have howners := owners_of_nil hc h
    refine ⟨Or.inl hc, ?_, ?_, ?_⟩
    · simp [h]
    · simp [howners]
    · simp [Lab.rawNames, howners]
  · intro hd
    have hc := hd.nonempty.resolve_right fun hne => hne h
    have howners := owners_of_nil hc h
    have hstandalone : lab.standalone = [] := by simp [standalone, h]
    refine ⟨fun _ => [], fun _ _ => [], ?_, ?_, ?_, ?_, ?_⟩
    · simp [howners]
    all_goals simp [drawing_of_nil h, Drawing.empty, hc, howners, hstandalone]

/-- The identifiers of what is drawn are those of the lab, in some order. -/
theorem idents_perm {f : Text → Text} {ident : Owner → Text} {boxIdent : Owner → Nat → Text}
    (h : lab.Shown (lab.drawingWith f) ident boxIdent) :
    ((lab.owners.map fun o => o.tag.key) ++ lab.drawnOwners.flatMap fun o => o.addons.mapIdx o.boxKey).map f |>.Perm
      (lab.owners.map ident ++ lab.owners.flatMap fun o => o.addons.mapIdx fun i _ => boxIdent o i) := by
  have hclusters := h.subgraphs.map Subgraph.id
  have hmembers := h.subgraphs.flatMap_right fun s => s.members.map Prod.fst
  have hstandalone := h.nodes.map Prod.fst
  have hboxes := h.boxes.map Prod.fst
  rw [drawingWith, map_fst_boxes, map_fst_boxes] at hboxes
  have hplaced : ∀ g : Text × NodeCfg → Text, (lab.nodes.entries.map g).Perm
      ((lab.kclusters.entries.flatMap fun c => (lab.members c.1).map g) ++ lab.standalone.map g) := fun g => by
    have := (lab.placedNodes_perm.map g).symm
    rwa [placedNodes, List.map_append, List.map_flatMap, Obj.keys, List.flatMap_map] at this
  have hnodes : (lab.nodes.entries.map fun n => f (Tag.node n.1).key).Perm
      (lab.nodes.entries.map fun n => ident (nodeOwner n)) := by
    refine (hplaced _).trans ((List.Perm.append ?_ ?_).trans (hplaced _).symm)
    · simpa [drawingWith, subgraphOf, List.flatMap_map, Function.comp_def] using hmembers
    · simpa [drawingWith, Function.comp_def] using hstandalone
  have howners : (lab.owners.map fun o => f o.tag.key).Perm (lab.owners.map ident) := by
    rw [owners, List.map_append, List.map_append, List.map_map, List.map_map, List.map_map, List.map_map]
    refine List.Perm.append ?_ hnodes
    simpa [drawingWith, subgraphOf, clusterOwner, Function.comp_def] using hclusters
  rw [List.map_append, List.map_map, List.map_flatMap]
  simp only [map_mapIdx]
  exact howners.append hboxes

/-- **Exactly which labs are shown**: there is a node to draw, no node of a kcluster has add-ons, no add-on has
overrides (but one named as an object is written), and no two raw strings are the same. -/
theorem shownExactly_iff (lab : Lab) : lab.ShownExactly ↔ lab.Drawable := by
  by_cases hnodes : lab.nodes.entries = []
  · exact shownExactly_of_nil hnodes
  obtain ⟨f, hf, hdrawing⟩ := exists_drawing hnodes
  constructor
  · rintro ⟨ident, boxIdent, hshown⟩
    rw [hdrawing] at hshown
    have hcovered := addons_of_length hshown.boxes.length_eq
    refine ⟨Or.inr hnodes, fun n hn hout => hcovered n (lab.mem_covered.mpr ⟨hn, hout⟩), ?_, ?_⟩
    · -- the labels of the boxes are the names of the add-ons
      have hlabels := hshown.boxes.map Prod.snd
      rw [drawingWith, map_snd_boxes _ _ fun e => diagramLabel e.shown,
        map_snd_boxes _ _ fun e => diagramLabel e.name] at hlabels
      have hperm := drawn_flatMap_perm (X := Owner.addons) hcovered
      have hsame := map_eq_of_perm (c := "[object Object]".toList)
        (fun e _ => by cases e <;> [exact Or.inl rfl; exact Or.inr rfl]) (hlabels.trans (hperm.symm.map _))
      intro o ho e he
      have hlabel := hsame e (hperm.mem_iff.mpr (List.mem_flatMap.mpr ⟨o, ho, he⟩))
      cases e with
      | plain name => rfl
      | overridden name => exact (eq_of_diagramLabel (t := "[object Object]".toList) (by decide) hlabel.symm).symm
    · have hnodup := ((idents_perm hshown).nodup_iff.mpr hshown.distinct).of_map
      have hperm := drawn_flatMap_perm (X := fun o => o.addons.mapIdx o.boxKey) fun n hn => by
        have : (nodeOwner n).addons = [] := hcovered n hn
        rw [this, List.mapIdx_nil]
      exact (hperm.append_left _).nodup_iff.mp hnodup
  · intro h
    have hcovered : ∀ n ∈ lab.covered, n.2.addons = [] := fun n hn =>
      h.members n (lab.mem_covered.mp hn).1 (lab.mem_covered.mp hn).2
    have hdrawn : ∀ {α : Type} (B : Owner → Nat → Entry → α),
        (lab.drawnOwners.flatMap fun o => o.addons.mapIdx (B o)).Perm
          (lab.owners.flatMap fun o => o.addons.mapIdx (B o)) := fun B =>
      drawn_flatMap_perm (X := fun o => o.addons.mapIdx (B o)) fun n hn => by
        have : (nodeOwner n).addons = [] := hcovered n hn
        rw [this, List.mapIdx_nil]
    have hbox : ∀ {α : Type} (o : Owner) (g : Text → Entry → α),
        (o.addons.mapIdx fun i e => g (f ((o.addons[i]?).elim [] (o.boxKey i))) e) =
          o.addons.mapIdx fun i e => g (f (o.boxKey i e)) e := fun o g =>
      List.ext_getElem (by simp) fun i hi _ => by
        rw [List.length_mapIdx] at hi
        simp [hi]
    refine ⟨fun o => f o.tag.key, fun o i => f ((o.addons[i]?).elim [] (o.boxKey i)), ?_⟩
    rw [hdrawing]
    refine ⟨?_, .refl _, .refl _, ?_, ?_⟩
    · have hraw : (lab.owners.map (fun o => f o.tag.key) ++ lab.owners.flatMap fun o =>
          o.addons.mapIdx fun i _ => f ((o.addons[i]?).elim [] (o.boxKey i))) = lab.rawNames.map f := by
        rw [rawNames, List.map_append, List.map_map, List.map_flatMap]
        simp only [map_mapIdx, hbox _ fun id _ => id]
        rfl
      rw [hraw]
      have hmem : ∀ a ∈ lab.rawNames, a ∈ lab.rawLines.flatMap Line.keys := fun a ha => by
        rcases List.mem_append.mp ha with ha | ha
        · obtain ⟨o, ho, rfl⟩ := List.mem_map.mp ha
          exact key_mem ho
        · obtain ⟨o, ho, hkey⟩ := List.mem_flatMap.mp ((hdrawn Owner.boxKey).mem_iff.mpr ha)
          exact boxKey_mem ho a hkey
      exact h.rawNames.map_on fun a ha b hb => hf a (hmem a ha) b (hmem b hb)
    · refine (hdrawn fun o i e => (f (o.boxKey i e), diagramLabel e.shown)).trans (.of_eq ?_)
      refine List.flatMap_congr fun o ho => ?_
      rw [hbox o fun id e => (id, diagramLabel e.name)]
      refine List.ext_getElem (by simp) fun i hi _ => ?_
      rw [List.length_mapIdx] at hi
      simp [h.shown o ho _ (List.getElem_mem hi)]
    · refine (hdrawn fun o i e => (f o.tag.key, f (o.boxKey i e))).trans (.of_eq ?_)
      exact List.flatMap_congr fun o _ => (hbox o fun id _ => (f o.tag.key, id)).symm

/-- A node in a kcluster with an add-on. -/
def clusteredAddon : Lab :=
  ⟨⟨[("vm1".toList, ⟨some "clu".toList, none, false, [.plain "mariadb".toList]⟩)], List.nodup_singleton _⟩,
    ⟨[("clu".toList, ⟨none, []⟩)], List.nodup_singleton _⟩⟩

/-- The add-on of a node in a kcluster has no box. -/
theorem clusteredAddon_not_shown : ¬ clusteredAddon.ShownExactly := by
  rintro ⟨ident, boxIdent, hshown⟩
  have hlen := hshown.boxes.length_eq
  have hnone : clusteredAddon.drawing.boxes.length = 0 := by decide
  rw [hnone] at hlen
  simp [owners, clusteredAddon, clusterOwner, nodeOwner] at hlen

end Lab

end LabInABox.Web.Diagram
