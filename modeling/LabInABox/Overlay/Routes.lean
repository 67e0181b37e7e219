import LabInABox.Overlay.Registry

/-!
# The overlay routes of the nodes

Model of the routes a node has toward the other sites in `libs/overlay.py`
(`ensure_route_via_site_gateway`, `refresh_routes`, and what `retire_site` does to the nodes).

* `RouteNode` is what a node keeps of them: the route script, the unit file, whether `systemd` holds
  the unit as active, and the kernel's routes. `dest` is the destination a CIDR text denotes; the
  kernel has one gateway for each.
* `enableNow` starts a unit only when it is not active, a oneshot that remains after exit is active
  once it ran, and `disableNow` stops it without a command, as the unit has no `ExecStop`. `ip route
  replace` adds a route or replaces the one to its destination.
* A pass over the nodes is the list of what it does to each (`refreshActions`), read from the
  registries. Nodes answer or not as `up` says; a command on a node that answers succeeds.
* The peers of the hub and its own kernel routes, which `retire_site` also changes, are not here.

Results:
* `Installed`: script, unit and kernel are those of the last list of routes. `follows_run_iff`: a push
  or a removal leaves them so exactly when it meets `RouteOk`.
* `routes_follow_pushes`: in every state such steps reach, every node has the routes last given to it.
* `mem_routes_refreshRoutes`: after a pass, those of a node that answers are the other sites' subnets,
  via its gateway.
* `refresh_misses_new_site`: the second pass that finds another site.
-/

namespace LabInABox.Overlay

open Text

/-! ## The script -/

/-- A route: the CIDR it leads to and the gateway it goes through. -/
abbrev Route := Text × Text

/-- The first words of a line of the script. -/
def routeWords : List Text := ["ip".toList, "route".toList, "replace".toList]

/-- `"ip route replace {} via {}".format(cidr, gateway_lan_ip)`. -/
def routeLine (r : Route) : Text := join (routeWords ++ [r.1, "via".toList, r.2])

/-- The script of `ensure_route_via_site_gateway`. -/
def routesScript (routes : List Route) : Text := unlines ("#!/bin/sh".toList :: routes.map routeLine)

/-- What the shell makes of a line of the script: the route it replaces, if it is such a command. -/
def readRoute (line : Text) : Option Route :=
  match fields line with
  | [ip, route, replace, cidr, via, gateway] =>
    if [ip, route, replace] = routeWords ∧ via = "via".toList then some (cidr, gateway) else none
  | _ => none

/-- The routes a script replaces, in order. -/
def scriptRoutes (script : Text) : List Route := (lines script).filterMap readRoute

/-! ## A node -/

section Node

variable {δ : Type} [DecidableEq δ] (dest : Text → δ)

/-- The script, the unit and the kernel routes of a node. -/
structure RouteNode (δ : Type) where
  script : Option Text
  unit : Bool
  active : Bool
  live : δ → Option Text

/-- A node with no overlay route. -/
def RouteNode.blank : RouteNode δ := ⟨none, false, false, fun _ => none⟩

/-- The routes of the script a node has. -/
def RouteNode.routes (n : RouteNode δ) : List Route := (n.script.map scriptRoutes).getD []

/-- `ip route replace cidr via gateway`. -/
def replaceRoute (live : δ → Option Text) (r : Route) : δ → Option Text :=
  Function.update live (dest r.1) (some r.2)

/-- `systemctl enable --now lab-overlay-routes.service`: the script runs unless the unit is active. -/
def enableNow (n : RouteNode δ) : RouteNode δ :=
  if n.active = true then n
  else { n with active := true, live := n.routes.foldl (replaceRoute dest) n.live }

/-- `systemctl disable --now lab-overlay-routes.service`, which fails without a unit file. -/
def disableNow (n : RouteNode δ) : RouteNode δ :=
  if n.unit = true then { n with active := false } else n

/-- `ensure_route_via_site_gateway(node_host, gateway_lan_ip, remote_cidrs)` on the node. -/
def ensureRouteViaSiteGateway (n : RouteNode δ) (gatewayLanIp : Text) (remoteCidrs : List Text) :
    RouteNode δ :=
  if remoteCidrs = [] then n
  else enableNow dest { n with
    script := some (routesScript (remoteCidrs.map fun cidr => (cidr, gatewayLanIp))), unit := true }

/-- The branch of `refresh_routes` for a node with no other site: disable, then `rm -f` of both
files. -/
def removeRoutes (n : RouteNode δ) : RouteNode δ :=
  { disableNow n with script := none, unit := false }

/-- What is done to a node. -/
inductive RouteAction
  | push (gatewayLanIp : Text) (remoteCidrs : List Text)
  | remove

/-- The node after it. -/
def RouteAction.run (n : RouteNode δ) : RouteAction → RouteNode δ
  | .push gateway cidrs => ensureRouteViaSiteGateway dest n gateway cidrs
  | .remove => removeRoutes n

end Node

/-- What it means for the routes a node is to have. An empty list is not pushed. -/
def RouteAction.apply (routes : List Route) : RouteAction → List Route
  | .push gateway cidrs => if cidrs = [] then routes else cidrs.map fun cidr => (cidr, gateway)
  | .remove => []

/-! ## A pass -/

/-- The other sites' subnets in `refresh_routes`, for a node of `siteName`. -/
def remoteCidrs (hub : Hub) (siteName : Text) : List Text :=
  ((dictItems (listOtherSites hub none)).filter fun p => p.1 ≠ siteName).map (·.2)

/-- What `refresh_routes` does to a node of a site that answers. -/
def refreshAction (hub : Hub) (siteName gatewayLanIp : Text) : RouteAction :=
  if remoteCidrs hub siteName = [] then .remove
  else .push gatewayLanIp (remoteCidrs hub siteName)

/-- `refresh_routes(hub_host, only_site)`: what it does to each node that answers. -/
def refreshActions (hub : Hub) (onlySite : Option Text) (up : Text → Bool) : List (Text × RouteAction) :=
  ((listNodes hub onlySite).filter fun n => up n.2.1).map fun n =>
    (n.2.1, refreshAction hub n.1 n.2.2)

/-- `(refreshed, unreachable)`, what `refresh_routes` returns. -/
def refreshCounts (hub : Hub) (onlySite : Option Text) (up : Text → Bool) : Nat × Nat :=
  ((refreshActions hub onlySite up).length,
    ((listNodes hub onlySite).filter fun n => !up n.2.1).length)

/-! ## Steps -/

/-- A step of the overlay: a call on the registries, a push to a node, a pass over the nodes, or a
retirement. -/
inductive RouteCall
  | registry (c : Call)
  | ensureRouteViaSiteGateway (nodeHost gatewayLanIp : Text) (remoteCidrs : List Text)
  | refreshRoutes (onlySite : Option Text) (up : Text → Bool)
  | retireSite (siteName : Text) (up : Text → Bool)

/-- The registries after a step. -/
def RouteCall.hub (hub : Hub) : RouteCall → Hub
  | .registry c => c.run hub
  | .ensureRouteViaSiteGateway _ _ _ => hub
  | .refreshRoutes _ _ => hub
  | .retireSite s _ => (Overlay.retireSite hub s).2

/-- What a step does to the nodes, in order. `retire_site` stops early without such a site. -/
def RouteCall.actions (hub : Hub) : RouteCall → List (Text × RouteAction)
  | .registry _ => []
  | .ensureRouteViaSiteGateway h g cidrs => [(h, .push g cidrs)]
  | .refreshRoutes only up => refreshActions hub only up
  | .retireSite s up =>
    if siteCidr hub s = [] then [] else refreshActions (Overlay.retireSite hub s).2 none up

/-- The nodes, next to the routes last given to each. -/
abbrev Nodes (δ : Type) := (Text → RouteNode δ) × (Text → List Route)

section Steps

variable {δ : Type} [DecidableEq δ] (dest : Text → δ)

/-- One action on one node. -/
def actionStep (st : Nodes δ) (a : Text × RouteAction) : Nodes δ :=
  (Function.update st.1 a.1 (a.2.run dest (st.1 a.1)), Function.update st.2 a.1 (a.2.apply (st.2 a.1)))

/-- One step, on the registries and the nodes. -/
def routeStep (st : Hub × Nodes δ) (c : RouteCall) : Hub × Nodes δ :=
  (c.hub st.1, (c.actions st.1).foldl (actionStep dest) st.2)

/-- Nodes without overlay routes. -/
def blankNodes : Nodes δ := (fun _ => RouteNode.blank, fun _ => [])

/-- **What a node is to have**: a script of exactly these routes, none when there is no route, and in
the kernel one route to each of their destinations and no other. -/
structure Follows (n : RouteNode δ) (routes : List Route) : Prop where
  script : n.routes = routes
  noScript : n.script = none ↔ routes = []
  live : ∀ d via, n.live d = some via ↔ ∃ cidr, (cidr, via) ∈ routes ∧ dest cidr = d

/-! ## The condition of an action -/

/-- The text of an address or a network: letters, digits, dots, colons and slashes. -/
def IsAddress (t : Text) : Prop :=
  t ≠ [] ∧ t.all (fun c => c.isAlphanum || c = '.' || c = ':' || c = '/') = true

instance (t : Text) : Decidable (IsAddress t) := inferInstanceAs (Decidable (_ ∧ _))

/-- Two lists that lead to the same destinations through the same gateways. -/
def SameRoutes (rs rs' : List Route) : Prop :=
  (∀ r ∈ rs, ∃ r' ∈ rs', (dest r'.1, r'.2) = (dest r.1, r.2)) ∧
    ∀ r' ∈ rs', ∃ r ∈ rs, (dest r.1, r.2) = (dest r'.1, r'.2)

instance (rs rs' : List Route) : Decidable (SameRoutes dest rs rs') :=
  inferInstanceAs (Decidable (_ ∧ _))

/-- The gateway and the networks of a push are addresses. -/
def RouteAction.Valid : RouteAction → Prop
  | .push gateway cidrs => IsAddress gateway ∧ ∀ cidr ∈ cidrs, IsAddress cidr
  | .remove => True

instance RouteAction.Valid.decidable : (a : RouteAction) → Decidable a.Valid
  | .push gateway cidrs =>
    inferInstanceAs (Decidable (IsAddress gateway ∧ ∀ cidr ∈ cidrs, IsAddress cidr))
  | .remove => inferInstanceAs (Decidable True)

/-- What an action has to meet: a node whose unit is active is given the routes it has, and is not
found to be without other sites. -/
def RouteOk (n : RouteNode δ) : RouteAction → Prop
  | .push gateway cidrs => cidrs = [] ∨ n.active = false ∨
      SameRoutes dest (cidrs.map fun cidr => (cidr, gateway)) n.routes
  | .remove => n.active = false

instance (n : RouteNode δ) : (a : RouteAction) → Decidable (RouteOk dest n a)
  | .push gateway cidrs => inferInstanceAs (Decidable (cidrs = [] ∨ n.active = false ∨
      SameRoutes dest (cidrs.map fun cidr => (cidr, gateway)) n.routes))
  | .remove => inferInstanceAs (Decidable (n.active = false))

/-- Every action of a step meets its condition where it is taken. -/
def RouteCallOk (st : Hub × Nodes δ) (c : RouteCall) : Prop :=
  Meets (fun st a => a.2.Valid ∧ RouteOk dest (st.1 a.1) a.2) (actionStep dest) st.2 (c.actions st.1)

instance (st : Hub × Nodes δ) (c : RouteCall) : Decidable (RouteCallOk dest st c) :=
  Meets.decidable _ _

end Steps

/-! ## Reading the script back -/

theorem IsAddress.isField {t : Text} (h : IsAddress t) : IsField isSpace t := by
  refine ⟨h.1, fun c hc => ?_⟩
  have hword := List.all_eq_true.mp h.2 c hc
  simp only [Bool.or_eq_true, decide_eq_true_eq] at hword
  rcases hword with ((h | rfl) | rfl) | rfl
  · exact isSpace_of_isAlphanum h
  · decide
  · decide
  · decide

theorem isField_routeWords {r : Route} (h : IsAddress r.1 ∧ IsAddress r.2) :
    ∀ f ∈ routeWords ++ [r.1, "via".toList, r.2], IsField isSpace f := by
  intro f hf
  simp only [routeWords, List.cons_append, List.nil_append, List.mem_cons, List.not_mem_nil,
    or_false] at hf
  rcases hf with rfl | rfl | rfl | rfl | rfl | rfl
  · decide
  · decide
  · decide
  · exact h.1.isField
  · decide
  · exact h.2.isField

theorem readRoute_routeLine {r : Route} (h : IsAddress r.1 ∧ IsAddress r.2) :
    readRoute (routeLine r) = some r := by
  unfold readRoute routeLine
  rw [fields_join (isField_routeWords h)]
  rfl

theorem newline_not_mem_routeLine {r : Route} (h : IsAddress r.1 ∧ IsAddress r.2) :
    '\n' ∉ routeLine r := by
  intro hm
  rcases mem_join hm with he | ⟨f, hf, hc⟩
  · exact absurd he (by decide)
  · exact absurd ((isField_routeWords h f hf).2 _ hc) (by decide)

/-- **The script reads back** as the routes it was written for. -/
theorem scriptRoutes_routesScript {routes : List Route}
    (h : ∀ r ∈ routes, IsAddress r.1 ∧ IsAddress r.2) : scriptRoutes (routesScript routes) = routes := by
  unfold scriptRoutes routesScript
  have hlines : ∀ l ∈ "#!/bin/sh".toList :: routes.map routeLine, '\n' ∉ l := by
    intro l hl
    rcases List.mem_cons.mp hl with rfl | hl
    · decide
    · obtain ⟨r, hr, rfl⟩ := List.mem_map.mp hl
      exact newline_not_mem_routeLine (h r hr)
  have hshebang : readRoute "#!/bin/sh".toList = none := by decide
  rw [lines_unlines hlines, List.filterMap_cons_none hshebang, List.filterMap_map]
  have hread : ∀ r ∈ routes, (readRoute ∘ routeLine) r = some r := fun r hr =>
    readRoute_routeLine (h r hr)
  rw [List.filterMap_congr hread, List.filterMap_some]

/-! ## One action -/

section Actions

variable {δ : Type} {dest : Text → δ} {n : RouteNode δ} {routes : List Route}

/-- The invariant of a node: it has its routes, and its unit is there and active when there are any. -/
structure Installed (dest : Text → δ) (n : RouteNode δ) (routes : List Route) : Prop where
  follows : Follows dest n routes
  active_iff : n.active = true ↔ routes ≠ []
  unit_eq : n.unit = n.active

theorem installed_blank : Installed dest RouteNode.blank [] where
  follows := ⟨rfl, by simp [RouteNode.blank], by simp [RouteNode.blank]⟩
  active_iff := by simp [RouteNode.blank]
  unit_eq := rfl

/-- A kernel that has one list of routes has another one exactly when they lead the same way. -/
theorem Follows.live_iff_sameRoutes (h : Follows dest n routes) (rs : List Route) :
    (∀ d via, n.live d = some via ↔ ∃ cidr, (cidr, via) ∈ rs ∧ dest cidr = d) ↔
      SameRoutes dest rs routes := by
  unfold SameRoutes
  constructor
  · intro hl
    constructor
    · rintro ⟨c, via⟩ hr
      obtain ⟨c', hc', he⟩ := (h.live _ _).mp ((hl (dest c) via).mpr ⟨c, hr, rfl⟩)
      exact ⟨(c', via), hc', by rw [he]⟩
    · rintro ⟨c, via⟩ hr
      obtain ⟨c', hc', he⟩ := (hl _ _).mp ((h.live (dest c) via).mpr ⟨c, hr, rfl⟩)
      exact ⟨(c', via), hc', by rw [he]⟩
  · rintro ⟨hsub, hsup⟩ d via
    rw [h.live]
    constructor
    · rintro ⟨c, hc, rfl⟩
      obtain ⟨⟨c', via'⟩, hr, he⟩ := hsup _ hc
      obtain ⟨he, rfl⟩ := Prod.mk.inj he
      exact ⟨c', hr, he⟩
    · rintro ⟨c, hc, rfl⟩
      obtain ⟨⟨c', via'⟩, hr, he⟩ := hsub _ hc
      obtain ⟨he, rfl⟩ := Prod.mk.inj he
      exact ⟨c', hr, he⟩

variable [DecidableEq δ]

/-- Replacing the routes to several networks through one gateway. -/
theorem foldl_replaceRoute (gateway : Text) (cidrs : List Text) (live : δ → Option Text) (d : δ) :
    (cidrs.map fun cidr => (cidr, gateway)).foldl (replaceRoute dest) live d =
      if d ∈ cidrs.map dest then some gateway else live d := by
  induction cidrs generalizing live with
  | nil => rfl
  | cons c cs ih =>
    rw [List.map_cons, List.foldl_cons, ih, List.map_cons]
    unfold replaceRoute
    by_cases hd : d = dest c
    · simp [hd]
    · rw [Function.update_of_ne hd]
      simp [hd]

/-- **What a push does**: the new script, and the kernel routes of a unit that was not active. -/
theorem ensureRoute_eq {gateway : Text} {cidrs : List Text} (hne : cidrs ≠ []) :
    ensureRouteViaSiteGateway dest n gateway cidrs =
      { script := some (routesScript (cidrs.map fun cidr => (cidr, gateway)))
        unit := true
        active := true
        live := if n.active = true then n.live else
          (scriptRoutes (routesScript (cidrs.map fun cidr => (cidr, gateway)))).foldl
            (replaceRoute dest) n.live } := by
  unfold ensureRouteViaSiteGateway enableNow
  rw [if_neg hne]
  by_cases ha : n.active = true
  · simp [ha]
  · simp [ha, RouteNode.routes]

theorem valid_push {gateway : Text} {cidrs : List Text}
    (hv : (RouteAction.push gateway cidrs).Valid) :
    ∀ r ∈ cidrs.map fun cidr => (cidr, gateway), IsAddress r.1 ∧ IsAddress r.2 := by
  intro r hr
  obtain ⟨c, hc, rfl⟩ := List.mem_map.mp hr
  exact ⟨hv.2 c hc, hv.1⟩

/-- **When a push leaves the node as it is to be**: its unit was not active, or the routes are those it
has. -/
theorem follows_push_iff (h : Installed dest n routes) {gateway : Text} {cidrs : List Text}
    (hne : cidrs ≠ []) (hv : (RouteAction.push gateway cidrs).Valid) :
    Follows dest (ensureRouteViaSiteGateway dest n gateway cidrs)
        (cidrs.map fun cidr => (cidr, gateway)) ↔
      n.active = false ∨ SameRoutes dest (cidrs.map fun cidr => (cidr, gateway)) n.routes := by
  have hread := scriptRoutes_routesScript (valid_push hv)
  have hrs : (cidrs.map fun cidr => (cidr, gateway)) ≠ [] := by simpa using hne
  have hscript : ∀ live : δ → Option Text,
      Follows dest ⟨some (routesScript (cidrs.map fun cidr => (cidr, gateway))), true, true, live⟩
          (cidrs.map fun cidr => (cidr, gateway)) ↔
        ∀ d via, live d = some via ↔
          ∃ cidr, (cidr, via) ∈ (cidrs.map fun cidr => (cidr, gateway)) ∧ dest cidr = d := fun live =>
    ⟨fun hf => hf.live, fun hl => ⟨hread, by simpa using hne, hl⟩⟩
  rw [ensureRoute_eq hne, hscript, hread]
  by_cases ha : n.active = true
  · -- the unit is active: the script does not run, the kernel keeps what it has
    simp only [ha, if_true, Bool.true_eq_false, false_or]
    rw [h.follows.live_iff_sameRoutes, h.follows.script]
  · -- the unit is not active, so the node had no route
    have hnone : routes = [] := by
      by_contra hr
      exact ha (h.active_iff.mpr hr)
    rw [if_neg ha]
    refine iff_of_true (fun d via => ?_) (Or.inl (Bool.not_eq_true _ ▸ ha))
    have hlive : n.live d = none := by
      rw [Option.eq_none_iff_forall_ne_some]
      intro via hvia
      obtain ⟨c, hc, _⟩ := (h.follows.live d via).mp hvia
      rw [hnone] at hc
      exact absurd hc List.not_mem_nil
    rw [foldl_replaceRoute, hlive]
    simp only [List.mem_map, Prod.mk.injEq]
    constructor
    · intro hif
      split at hif
      · rename_i hd
        obtain ⟨c, hc, hcd⟩ := hd
        exact ⟨c, ⟨c, hc, rfl, Option.some.inj hif⟩, hcd⟩
      · exact absurd hif (by simp)
    · rintro ⟨c, ⟨c', hc, rfl, rfl⟩, hcd⟩
      exact if_pos ⟨c', hc, hcd⟩

omit [DecidableEq δ] in
/-- **What a removal does**: script and unit go, the kernel routes stay. -/
theorem removeRoutes_eq (h : n.unit = n.active) : removeRoutes n = ⟨none, false, false, n.live⟩ := by
  unfold removeRoutes disableNow
  rw [h]
  cases ha : n.active <;> simp [ha]

omit [DecidableEq δ] in
/-- **When a removal leaves the node as it is to be**: it had no route. -/
theorem follows_remove_iff (h : Installed dest n routes) :
    Follows dest (removeRoutes n) [] ↔ n.active = false := by
  rw [removeRoutes_eq h.unit_eq]
  constructor
  · intro hf
    by_contra ha
    rw [Bool.not_eq_false, h.active_iff] at ha
    obtain ⟨r, rs, rfl⟩ := List.exists_cons_of_ne_nil ha
    have hsome := (h.follows.live (dest r.1) r.2).mpr ⟨r.1, List.mem_cons_self, rfl⟩
    obtain ⟨c, hc, _⟩ := (hf.live _ _).mp hsome
    exact absurd hc List.not_mem_nil
  · intro ha
    have hnil : routes = [] := by
      by_contra hr
      rw [h.active_iff.mpr hr] at ha
      exact absurd ha (by decide)
    refine ⟨rfl, iff_of_true rfl rfl, fun d via => ?_⟩
    rw [h.follows.live, hnil]

/-- **One action**, both ways: a valid action leaves the node as it is to be exactly when it meets its
condition. -/
theorem follows_run_iff (h : Installed dest n routes) {a : RouteAction} (hv : a.Valid) :
    Follows dest (a.run dest n) (a.apply routes) ↔ RouteOk dest n a := by
  cases a with
  | push gateway cidrs =>
    simp only [RouteAction.run, RouteAction.apply, RouteOk]
    by_cases hne : cidrs = []
    · rw [if_pos hne, ensureRouteViaSiteGateway, if_pos hne]
      exact iff_of_true h.follows (Or.inl hne)
    · rw [if_neg hne, follows_push_iff h hne hv, or_iff_right hne]
  | remove => exact follows_remove_iff h

theorem Installed.run (h : Installed dest n routes) {a : RouteAction} (hv : a.Valid)
    (hok : RouteOk dest n a) : Installed dest (a.run dest n) (a.apply routes) := by
  have hf := (follows_run_iff h hv).mpr hok
  cases a with
  | push gateway cidrs =>
    simp only [RouteAction.run, RouteAction.apply] at hf ⊢
    by_cases hne : cidrs = []
    · rw [if_pos hne, ensureRouteViaSiteGateway, if_pos hne]
      exact h
    · rw [if_neg hne] at hf ⊢
      rw [ensureRoute_eq hne] at hf ⊢
      exact ⟨hf, by simpa using hne, rfl⟩
  | remove =>
    simp only [RouteAction.run, RouteAction.apply] at hf ⊢
    rw [removeRoutes_eq h.unit_eq] at hf ⊢
    exact ⟨hf, by simp, rfl⟩

end Actions

/-! ## Runs -/

section Runs

variable {δ : Type} [DecidableEq δ] {dest : Text → δ}

/-- One action on one node leaves every node as it is to be. -/
theorem installed_actionStep {st : Nodes δ} (h : ∀ host, Installed dest (st.1 host) (st.2 host))
    {a : Text × RouteAction} (hok : a.2.Valid ∧ RouteOk dest (st.1 a.1) a.2) (host : Text) :
    Installed dest ((actionStep dest st a).1 host) ((actionStep dest st a).2 host) := by
  unfold actionStep
  dsimp only
  by_cases hh : host = a.1
  · subst hh
    rw [Function.update_self, Function.update_self]
    exact (h a.1).run hok.1 hok.2
  · rw [Function.update_of_ne hh, Function.update_of_ne hh]
    exact h host

/-- **One step** leaves every node as it is to be. -/
theorem installed_routeStep {st : Hub × Nodes δ}
    (h : ∀ host, Installed dest (st.2.1 host) (st.2.2 host)) {c : RouteCall}
    (hok : RouteCallOk dest st c) (host : Text) :
    Installed dest ((routeStep dest st c).2.1 host) ((routeStep dest st c).2.2 host) := by
  have hstart : Reached (fun st a => a.2.Valid ∧ RouteOk dest (st.1 a.1) a.2) (actionStep dest) st.2
      st.2 := .start
  exact (hstart.run hok).invariant (I := fun st => ∀ host, Installed dest (st.1 host) (st.2 host)) h
    (fun _ _ hs ha => installed_actionStep hs ha) host

/-! ### What a pass gives -/

theorem mem_remoteCidrs {hub : Hub} {m : Maps} (hm : Listed hub m) {site cidr : Text} :
    cidr ∈ remoteCidrs hub site ↔ ∃ s, s ≠ site ∧ m.sites s = some cidr := by
  have hall : (fun s => (m.sites s).filter fun _ => decide (some s ≠ none)) = m.sites := by
    funext s
    cases m.sites s <;> rfl
  have hrep := hm.sites none
  rw [hall] at hrep
  simp only [remoteCidrs, List.mem_map, List.mem_filter, decide_eq_true_eq, Prod.exists]
  constructor
  · rintro ⟨s, c, ⟨hin, hne⟩, rfl⟩
    rw [mem_dictItems, hrep.dictGet_eq] at hin
    exact ⟨s, hne, hin⟩
  · rintro ⟨s, hne, hs⟩
    rw [← hrep.dictGet_eq, ← mem_dictItems] at hs
    exact ⟨s, cidr, ⟨hs, hne⟩, rfl⟩

theorem refreshAction_apply (hub : Hub) (site gateway : Text) (routes : List Route) :
    (refreshAction hub site gateway).apply routes =
      (remoteCidrs hub site).map fun cidr => (cidr, gateway) := by
  unfold refreshAction
  by_cases he : remoteCidrs hub site = []
  · rw [if_pos he, he]
    rfl
  · rw [if_neg he, RouteAction.apply, if_neg he]

theorem actionStep_routes (st : Nodes δ) (a : Text × RouteAction) (host : Text) :
    (actionStep dest st a).2 host = if host = a.1 then a.2.apply (st.2 host) else st.2 host := by
  unfold actionStep
  by_cases hh : host = a.1
  · rw [if_pos hh, hh]
    exact Function.update_self ..
  · rw [if_neg hh]
    exact Function.update_of_ne hh ..

/-- **A pass gives a node that answers the routes to the other sites**, through its gateway: those of a
site that joined are among them, those of a site that was retired are not. -/
theorem mem_routes_refreshRoutes {hub : Hub} {m : Maps} (hm : Listed hub m) (st : Nodes δ)
    {up : Text → Bool} {host site gateway : Text} (hn : m.nodes host = some (site, gateway))
    (hup : up host = true) (r : Route) :
    r ∈ (routeStep dest (hub, st) (.refreshRoutes none up)).2.2 host ↔
      r.2 = gateway ∧ ∃ s, s ≠ site ∧ m.sites s = some r.1 := by
  have hrep := hm.nodes none
  have hin : (site, host, gateway) ∈ listNodes hub none := by
    have hmem := (hrep.mem_iff host (site, gateway)).mpr (by simp [hn])
    obtain ⟨n, hlist, he⟩ := List.mem_map.mp hmem
    simp only [Prod.mk.injEq] at he
    obtain ⟨rfl, rfl, rfl⟩ := he
    exact hlist
  have hact : (host, refreshAction hub site gateway) ∈ refreshActions hub none up :=
    List.mem_map.mpr ⟨_, List.mem_filter.mpr ⟨hin, hup⟩, rfl⟩
  have hnd : ((refreshActions hub none up).map (·.1)).Nodup := by
    have hsub : ((refreshActions hub none up).map (·.1)).Sublist
        (((listNodes hub none).map fun n => (n.2.1, (n.1, n.2.2))).map Prod.fst) := by
      unfold refreshActions
      rw [List.map_map, List.map_map]
      exact List.filter_sublist.map _
    exact hrep.nodup.sublist hsub
  have hfold := @foldl_at_key _ _ _ _ _ (fun (st : Nodes δ) k => st.2 k) (fun a => a.1)
    (actionStep dest) (fun a => a.2.apply) actionStep_routes _ st hnd _ hact
  change r ∈ ((refreshActions hub none up).foldl (actionStep dest) st).2 host ↔ _
  simp only at hfold
  rw [hfold, refreshAction_apply, List.mem_map]
  constructor
  · rintro ⟨c, hc, rfl⟩
    exact ⟨rfl, (mem_remoteCidrs hm).mp hc⟩
  · rintro ⟨rfl, hs⟩
    exact ⟨r.1, (mem_remoteCidrs hm).mpr hs, rfl⟩

/-- **Every node has the routes last given to it**, in its script and in its kernel, in every state
that steps meeting their condition reach from nodes without routes. -/
theorem routes_follow_pushes (dest : Text → δ) (hub : Hub) (st : Hub × Nodes δ)
    (h : Reached (RouteCallOk dest) (routeStep dest) (hub, blankNodes) st) (host : Text) :
    Follows dest (st.2.1 host) (st.2.2 host) := by
  have hinst := h.invariant (I := fun st => ∀ host, Installed dest (st.2.1 host) (st.2.2 host))
    (fun _ => installed_blank) fun _ _ hs hok => installed_routeStep hs hok
  exact (hinst host).follows

end Runs

/-! ## A site that joins later -/

/-- A hub with one site and one node of it, after the steps. -/
def joined (calls : List RouteCall) : Hub × Nodes (Option (Nat × Nat)) :=
  (.registry (.registerSite "home".toList "192.168.88.0/24".toList) ::
    .registry (.registerNode "home".toList "n0.lab".toList "192.168.88.73".toList) ::
    calls).foldl (routeStep Ipv4.cidrNet) (fun _ => [], blankNodes)

/-- A site joins, the node is routed to it, and is given the same routes again. -/
theorem routes_follow_pushes_joined :
    let st := joined [.refreshRoutes none fun _ => true,
      .registry (.registerSite "aws-a".toList "10.1.0.0/16".toList),
      .refreshRoutes none fun _ => true, .refreshRoutes none fun _ => true]
    Follows Ipv4.cidrNet (st.2.1 "n0.lab".toList) (st.2.2 "n0.lab".toList) :=
  routes_follow_pushes Ipv4.cidrNet _ _ (Reached.start.run (by decide)) _

/-- **A second site that joins is not routed to**: the unit is active since the first, so the new
script does not run. -/
theorem refresh_misses_new_site :
    let st := joined [.registry (.registerSite "aws-a".toList "10.1.0.0/16".toList),
      .refreshRoutes none fun _ => true,
      .registry (.registerSite "aws-b".toList "10.2.0.0/16".toList),
      .refreshRoutes none fun _ => true]
    ¬ Follows Ipv4.cidrNet (st.2.1 "n0.lab".toList) (st.2.2 "n0.lab".toList) := by
  intro st h
  have hgiven : ("10.2.0.0/16".toList, "192.168.88.73".toList) ∈ st.2.2 "n0.lab".toList := by
    decide
  have hlive := (h.live (Ipv4.cidrNet "10.2.0.0/16".toList) "192.168.88.73".toList).mpr
    ⟨_, hgiven, rfl⟩
  exact absurd hlive (by decide)

end LabInABox.Overlay
