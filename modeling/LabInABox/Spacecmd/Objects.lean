import LabInABox.Text.Lines

/-!
# The objects of a server, found by name

Model of `activation_key_exists`, `resolve_activation_key_name`, `ensure_activation_key`,
`config_channel_exists`, `ensure_config_channel_exists` and `ensure_channels_synced`
(`libs/spacecmd_common.py`), which look an object up in what `spacecmd` lists and create it when it is
not there.

* `Server` is what the three list commands print. The server stores an activation key under its
  organization's number, a hyphen and its name, and lists a stored name a line, without white space at
  its ends.
* A configuration value is a text, empty when it is missing. `Outcome` is the commands that change the
  server, in order, and the message of `die`, if the function ends there.
* What a command answers is a parameter: `failure`, the message of one that failed.

Results:
* `resolves_iff`, `activationKeyExists_iff`, `listed_iff`: when a lookup is one by identity.
* `byIdentity_iff`: exactly when every lookup of a server is, and what is created is what is missing.
* `suffix_key_confused`: a key whose name is the end of another's.
-/

namespace LabInABox.Spacecmd

open Text

/-! ## Commands -/

/-- The characters `shlex.quote` leaves alone. -/
def isShellSafe (c : Char) : Bool := c.isAlphanum || c ∈ "_@%+=:,./-".toList

/-- `shlex.quote(s)`. -/
def shlexQuote (s : Text) : Text :=
  if s = [] then "''".toList
  else if s.all isShellSafe = true then s
  else '\'' :: (s.flatMap fun c => if c = '\'' then "'\"'\"'".toList else [c]) ++ ['\'']

/-- `" ".join(shlex.quote(c) for c in words)`. -/
def quoteAll (words : List Text) : Text := [' '].intercalate (words.map shlexQuote)

/-- The commands that change the server, and the message of `die`. -/
structure Outcome where
  commands : List Text
  died : Option Text
  deriving DecidableEq

/-- Nothing to do. -/
def Outcome.nothing : Outcome := ⟨[], none⟩

/-! ## Activation keys -/

/-- The `<prefix>_activation_key*` values of a configuration. -/
structure ActivationKey where
  owner : Text
  name : Text
  base_channel : Text
  desc : Text
  universal_default : Text
  entitlements : Text
  child_channels : Text
  config_channels : Text
  enable_config_deployment : Text
  groups : Text
  contact_method : Text

/-- `activation_key_exists`, of what `activationkey_list` printed. -/
def activationKeyExists (listed keyName : Text) : Bool := decide (keyName <:+: listed)

/-- `resolve_activation_key_name`, of what `activationkey_list` printed. -/
def resolveActivationKeyName (listed keyName : Text) : Text :=
  let lines := ((splitlines listed).map strip).filter (· ≠ [])
  if keyName ∈ lines then keyName
  else (lines.find? fun line => ('-' :: keyName) <:+ line).getD keyName

/-- The command that creates a key. -/
def activationKeyCreate (k : ActivationKey) : Text :=
  "activationkey_create -n ".toList ++ shlexQuote k.name ++ " -d ".toList ++
    shlexQuote (if k.desc = [] then k.name else k.desc) ++ " -b ".toList ++ shlexQuote k.base_channel ++
    (if k.universal_default = "true".toList then " -u".toList else []) ++
    (if k.entitlements = [] then [] else " -e ".toList ++ shlexQuote k.entitlements)

/-- A follow-up command on a key, with the words it adds, if there are any. -/
def followUp (command stored : Text) (words : List Text) : List Text :=
  if words = [] then [] else [command ++ ' ' :: shlexQuote stored ++ ' ' :: quoteAll words]

/-- The commands after the creation of a key, on its stored name. -/
def followUps (k : ActivationKey) (stored : Text) : List Text :=
  followUp "activationkey_addchildchannels".toList stored (fields k.child_channels) ++
    followUp "activationkey_addconfigchannels".toList stored (fields k.config_channels) ++
    (if k.enable_config_deployment = "true".toList then
      ["activationkey_enableconfigdeployment ".toList ++ shlexQuote stored] else []) ++
    followUp "activationkey_addgroups".toList stored (fields k.groups) ++
    (if k.contact_method = [] then [] else
      ["activationkey_setcontactmethod ".toList ++ shlexQuote stored ++ ' ' :: shlexQuote k.contact_method])

/-- The message of a key that has no base channel. -/
def baseChannelRequired (k : ActivationKey) : Text :=
  k.owner ++ "_activation_key_base_channel is required to create activation key '".toList ++ k.name ++
    ['\'']

/-- `ensure_activation_key`: `listed` and `after` are what `activationkey_list` printed before the
creation and after it. -/
def ensureActivationKey (k : ActivationKey) (listed after : Text) (failure : Option Text) : Outcome :=
  if k.name = [] then .nothing
  else if activationKeyExists listed k.name = true then .nothing
  else if k.base_channel = [] then ⟨[], some (baseChannelRequired k)⟩
  else
    match failure with
    | some message => ⟨[activationKeyCreate k], some ("could not create activation key '".toList ++
        k.name ++ "': ".toList ++ strip message)⟩
    | none => ⟨activationKeyCreate k :: followUps k (resolveActivationKeyName after k.name), none⟩

/-! ## Channels -/

/-- `config_channel_exists`, of what `configchannel_list` printed. -/
def configChannelExists (listed label : Text) : Bool := decide (label <:+: listed)

/-- A configuration channel. -/
structure ConfigChannel where
  label : Text
  name : Text
  desc : Text
  chan_type : Text

/-- The command that creates a configuration channel. -/
def configChannelCreate (c : ConfigChannel) : Text :=
  "configchannel_create -n ".toList ++ shlexQuote c.name ++ " -l ".toList ++ shlexQuote c.label ++
    " -d ".toList ++ shlexQuote c.desc ++ " -t ".toList ++ shlexQuote c.chan_type

/-- `ensure_config_channel_exists`. -/
def ensureConfigChannelExists (c : ConfigChannel) (listed : Text) (failure : Option Text) : Outcome :=
  if configChannelExists listed c.label = true then .nothing
  else
    match failure with
    | some message => ⟨[configChannelCreate c], some ("could not create config channel '".toList ++
        c.label ++ "': ".toList ++ strip message)⟩
    | none => ⟨[configChannelCreate c], none⟩

/-- The command that adds a software channel. -/
def mgrSyncAdd (label : Text) : Text := "mgr-sync add channel ".toList ++ shlexQuote label

/-- The additions of these channels, up to one that fails. -/
def addChannels (failed : Text → Bool) : List Text → Outcome
  | [] => .nothing
  | ch :: channels =>
    if failed ch = true then ⟨[mgrSyncAdd ch], some ("could not sync channel '".toList ++ ch ++ ['\''])⟩
    else
      let rest := addChannels failed channels
      ⟨mgrSyncAdd ch :: rest.commands, rest.died⟩

/-- `ensure_channels_synced`, of what `softwarechannel_list` printed. -/
def ensureChannelsSynced (existing : Text) (failed : Text → Bool) : List Text → Outcome
  | [] => .nothing
  | ch :: channels =>
    if ch <:+: existing then ensureChannelsSynced existing failed channels
    else if failed ch = true then
      ⟨[mgrSyncAdd ch], some ("could not sync channel '".toList ++ ch ++ ['\''])⟩
    else
      let rest := ensureChannelsSynced existing failed channels
      ⟨mgrSyncAdd ch :: rest.commands, rest.died⟩

/-! ## Identity -/

/-- The name of the key that is stored so: what follows the organization's number and a hyphen. -/
def keyOf (stored : Text) : Option Text :=
  match stored.takeWhile Char.isDigit, stored.dropWhile Char.isDigit with
  | _ :: _, '-' :: name => some name
  | _, _ => none

/-- The text is the stored name of a key, as the list shows it. -/
def IsStored (line : Text) : Prop := (keyOf line).isSome = true ∧ strip line = line

instance (line : Text) : Decidable (IsStored line) := inferInstanceAs (Decidable (_ ∧ _))

/-- What a server lists. -/
structure Server where
  activationKeys : Text
  configChannels : Text
  softwareChannels : Text
  stored : ∀ line ∈ splitlines activationKeys, IsStored line

/-- A line of the list is this key's: its stored name, or the very text. -/
def KeyListed (listed keyName : Text) : Prop :=
  ∃ line ∈ splitlines listed, line = keyName ∨ keyOf line = some keyName

/-- **A key is resolved by identity**: to the stored name of the key, or to the text itself when that is
listed or no line is the key's. -/
def Resolves (listed keyName : Text) : Prop :=
  let r := resolveActivationKeyName listed keyName
  (r ∈ splitlines listed ∧ keyOf r = some keyName) ∨
    (r = keyName ∧ (keyName ∈ splitlines listed ∨
      ∀ line ∈ splitlines listed, keyOf line ≠ some keyName))

/-- What a lab asks a server for. -/
structure Request where
  key : ActivationKey
  configChannel : ConfigChannel
  channels : List Text

/-- **Objects are found and created by identity**: whatever the commands answer, the key is created (or
the base channel it takes is asked for) if it is not listed, and only then; so is the configuration
channel, and so are the channels, one by one. -/
structure ByIdentity (s : Server) (r : Request) : Prop where
  resolves : Resolves s.activationKeys r.key.name
  keyExists : activationKeyExists s.activationKeys r.key.name = true ↔
    KeyListed s.activationKeys r.key.name
  key : r.key.name ≠ [] → ∀ after failure,
    (activationKeyCreate r.key ∈ (ensureActivationKey r.key s.activationKeys after failure).commands ∨
      (ensureActivationKey r.key s.activationKeys after failure).died = some (baseChannelRequired r.key) ↔
        ¬ KeyListed s.activationKeys r.key.name)
  channelExists : configChannelExists s.configChannels r.configChannel.label = true ↔
    r.configChannel.label ∈ splitlines s.configChannels
  configChannel : ∀ failure, configChannelCreate r.configChannel ∈
    (ensureConfigChannelExists r.configChannel s.configChannels failure).commands ↔
      r.configChannel.label ∉ splitlines s.configChannels
  channels : ∀ failed, ensureChannelsSynced s.softwareChannels failed r.channels =
    addChannels failed (r.channels.filter fun ch => ch ∉ splitlines s.softwareChannels)

/-- **No name is mistaken for another**: the first line that ends in a hyphen and the key's name is that
key's, unless the very text is listed; and a name that occurs in a list is one of its entries. -/
structure Unambiguous (s : Server) (r : Request) : Prop where
  ending : r.key.name ∉ splitlines s.activationKeys →
    ∀ line, (splitlines s.activationKeys).find? (fun line => ('-' :: r.key.name) <:+ line) = some line →
      keyOf line = some r.key.name
  key : r.key.name <:+: s.activationKeys → KeyListed s.activationKeys r.key.name
  configChannel : r.configChannel.label <:+: s.configChannels →
    r.configChannel.label ∈ splitlines s.configChannels
  channels : ∀ ch ∈ r.channels, ch <:+: s.softwareChannels → ch ∈ splitlines s.softwareChannels

/-! ## Lookups -/

variable {listed keyName label : Text}

/-- A line of a text is part of it, and the first one begins it. -/
theorem splitlines_parts (t : Text) : (∀ l ls, splitlines t = l :: ls → l <+: t) ∧
    ∀ l ∈ splitlines t, l <:+: t := by
  fun_induction splitlines t with
  | case1 => exact ⟨fun _ _ h => (by cases h), fun _ h => absurd h List.not_mem_nil⟩
  | case2 cs ih =>
    refine ⟨fun l ls h => (List.cons.inj h).1 ▸ List.nil_prefix, fun l hl => ?_⟩
    rcases List.mem_cons.mp hl with rfl | hl
    · exact List.nil_infix
    · exact List.infix_cons (List.infix_cons (ih.2 l hl))
  | case3 c cs _ hc ih =>
    refine ⟨fun l ls h => (List.cons.inj h).1 ▸ List.nil_prefix, fun l hl => ?_⟩
    rcases List.mem_cons.mp hl with rfl | hl
    · exact List.nil_infix
    · exact List.infix_cons (ih.2 l hl)
  | case4 c cs _ hc ih =>
    cases hs : splitlines cs with
    | nil =>
      have hhead : [c] <+: c :: cs := List.cons_prefix_cons.mpr ⟨rfl, List.nil_prefix⟩
      refine ⟨fun l ls h => (List.cons.inj h).1 ▸ hhead, fun l hl => ?_⟩
      rw [List.mem_singleton.mp hl]
      exact hhead.isInfix
    | cons l ls =>
      have hhead : c :: l <+: c :: cs := List.cons_prefix_cons.mpr ⟨rfl, ih.1 l ls hs⟩
      refine ⟨fun l' ls' h => (List.cons.inj h).1 ▸ hhead, fun l' hl' => ?_⟩
      rcases List.mem_cons.mp hl' with rfl | hl'
      · exact hhead.isInfix
      · exact List.infix_cons (ih.2 l' (by rw [hs]; exact List.mem_cons_of_mem _ hl'))

theorem infix_of_mem_splitlines {l t : Text} (h : l ∈ splitlines t) : l <:+: t :=
  (splitlines_parts t).2 l h

/-- The stored name of a key ends in a hyphen and its name. -/
theorem suffix_of_keyOf {line : Text} (h : keyOf line = some keyName) : ('-' :: keyName) <:+ line := by
  unfold keyOf at h
  split at h
  · rename_i hrest
    obtain rfl := Option.some.inj h
    rw [← hrest]
    exact List.dropWhile_suffix _
  · cases h

theorem KeyListed.occurs (h : KeyListed listed keyName) : keyName <:+: listed := by
  obtain ⟨line, hl, rfl | hk⟩ := h
  · exact infix_of_mem_splitlines hl
  · have hend : keyName <:+: line := (List.infix_cons (List.infix_refl _)).trans (suffix_of_keyOf hk).isInfix
    exact hend.trans (infix_of_mem_splitlines hl)

/-- Stored names are the lines that are looked at. -/
theorem lines_of_stored (h : ∀ line ∈ splitlines listed, IsStored line) :
    ((splitlines listed).map strip).filter (· ≠ []) = splitlines listed := by
  have hstrip : (splitlines listed).map strip = splitlines listed :=
    (List.map_congr_left fun line hl => (h line hl).2).trans (List.map_id _)
  rw [hstrip, List.filter_eq_self]
  intro line hl
  refine decide_eq_true ?_
  rintro rfl
  exact absurd (h [] hl).1 (by decide)

/-- **Where a key is resolved by identity.** -/
theorem resolves_iff (h : ∀ line ∈ splitlines listed, IsStored line) : Resolves listed keyName ↔
    (keyName ∉ splitlines listed → ∀ line,
      (splitlines listed).find? (fun line => ('-' :: keyName) <:+ line) = some line →
        keyOf line = some keyName) := by
  unfold Resolves resolveActivationKeyName
  rw [lines_of_stored h]
  by_cases hm : keyName ∈ splitlines listed
  · simp only [if_pos hm]
    exact iff_of_true (Or.inr ⟨trivial, Or.inl hm⟩) fun hn => absurd hm hn
  · simp only [if_neg hm]
    cases hf : (splitlines listed).find? fun line => ('-' :: keyName) <:+ line with
    | none =>
      refine iff_of_true (Or.inr ⟨rfl, Or.inr fun line hl hk => ?_⟩) fun _ _ h => by cases h
      exact absurd (decide_eq_true (suffix_of_keyOf hk)) (by simpa using List.find?_eq_none.mp hf line hl)
    | some line =>
      have hl := List.mem_of_find?_eq_some hf
      have hend : ('-' :: keyName) <:+ line := by simpa using List.find?_some hf
      simp only [Option.getD_some, Option.some.injEq, forall_eq']
      constructor
      · rintro (⟨_, hk⟩ | ⟨rfl, _⟩) _
        · exact hk
        · exact absurd hl hm
      · exact fun hk => Or.inl ⟨hl, hk hm⟩

/-- **Where a name in a list is an entry of it.** -/
theorem decide_infix_iff {P : Prop} {needle text : Text} (h : P → needle <:+: text) :
    (decide (needle <:+: text) = true ↔ P) ↔ (needle <:+: text → P) := by
  rw [decide_eq_true_eq]
  exact ⟨Iff.mp, fun hp => ⟨hp, h⟩⟩

/-! ## What is created -/

/-- **A key is created, or its base channel asked for**, exactly when its name occurs nowhere in the
list. -/
theorem ensureActivationKey_iff {k : ActivationKey} (hname : k.name ≠ []) (after : Text)
    (failure : Option Text) :
    (activationKeyCreate k ∈ (ensureActivationKey k listed after failure).commands ∨
      (ensureActivationKey k listed after failure).died = some (baseChannelRequired k)) ↔
        ¬ k.name <:+: listed := by
  unfold ensureActivationKey activationKeyExists
  rw [if_neg hname]
  by_cases hin : k.name <:+: listed
  · rw [if_pos (decide_eq_true hin)]
    refine iff_of_false ?_ (not_not_intro hin)
    rintro (h | h)
    · exact List.not_mem_nil h
    · cases h
  · rw [if_neg (mt of_decide_eq_true hin)]
    refine iff_of_true ?_ hin
    by_cases hbase : k.base_channel = []
    · rw [if_pos hbase]
      exact Or.inr rfl
    · rw [if_neg hbase]
      cases failure with
      | some message => exact Or.inl List.mem_cons_self
      | none => exact Or.inl List.mem_cons_self

theorem ensureConfigChannelExists_iff {c : ConfigChannel} (failure : Option Text) :
    configChannelCreate c ∈ (ensureConfigChannelExists c listed failure).commands ↔
      ¬ c.label <:+: listed := by
  unfold ensureConfigChannelExists configChannelExists
  by_cases hin : c.label <:+: listed
  · rw [if_pos (decide_eq_true hin)]
    exact iff_of_false List.not_mem_nil (not_not_intro hin)
  · rw [if_neg (mt of_decide_eq_true hin)]
    cases failure with
    | some message => exact iff_of_true List.mem_cons_self hin
    | none => exact iff_of_true List.mem_cons_self hin

/-- The channels that are added are those whose label occurs nowhere in the list. -/
theorem ensureChannelsSynced_eq (failed : Text → Bool) (channels : List Text) :
    ensureChannelsSynced listed failed channels =
      addChannels failed (channels.filter fun ch => ¬ ch <:+: listed) := by
  induction channels with
  | nil => rfl
  | cons ch channels ih =>
    rw [ensureChannelsSynced]
    by_cases hin : ch <:+: listed
    · rw [if_pos hin, List.filter_cons_of_neg (by simpa using hin), ih]
    · rw [if_neg hin, List.filter_cons_of_pos (by simpa using hin), addChannels, ih]

/-- Without a failure, a command is run for each channel. -/
theorem addChannels_commands (channels : List Text) :
    (addChannels (fun _ => false) channels).commands = channels.map mgrSyncAdd := by
  induction channels with
  | nil => rfl
  | cons ch channels ih =>
    rw [addChannels, if_neg Bool.false_ne_true, List.map_cons, ← ih]

/-- **The channels that are missing are added**, whichever addition fails, exactly when each label that
occurs in the list is an entry of it. -/
theorem ensureChannelsSynced_iff {channels : List Text} :
    (∀ failed, ensureChannelsSynced listed failed channels =
      addChannels failed (channels.filter fun ch => ch ∉ splitlines listed)) ↔
      ∀ ch ∈ channels, ch <:+: listed → ch ∈ splitlines listed := by
  constructor
  · intro h ch hch hin
    by_contra hn
    have hlength : (channels.filter fun ch => ¬ ch <:+: listed).length =
        (channels.filter fun ch => ch ∉ splitlines listed).length := by
      have hcommands := congrArg (fun o => o.commands.length) (h fun _ => false)
      rw [ensureChannelsSynced_eq] at hcommands
      simpa only [addChannels_commands, List.length_map] using hcommands
    have hsub : (channels.filter fun ch => ¬ ch <:+: listed).Sublist
        (channels.filter fun ch => ch ∉ splitlines listed) := by
      refine List.monotone_filter_right _ fun ch hch => ?_
      rw [decide_eq_true_eq] at hch ⊢
      exact fun hm => hch (infix_of_mem_splitlines hm)
    have hmem : ch ∈ channels.filter fun ch => ch ∉ splitlines listed :=
      List.mem_filter.mpr ⟨hch, decide_eq_true hn⟩
    rw [← hsub.eq_of_length hlength, List.mem_filter, decide_eq_true_eq] at hmem
    exact hmem.2 hin
  · intro h failed
    rw [ensureChannelsSynced_eq]
    congr 1
    refine List.filter_congr fun ch hch => decide_eq_decide.mpr (not_congr ?_)
    exact ⟨h ch hch, infix_of_mem_splitlines⟩

/-- **When objects are found and created by identity.** -/
theorem byIdentity_iff (s : Server) (r : Request) : ByIdentity s r ↔ Unambiguous s r := by
  have hresolves : Resolves s.activationKeys r.key.name ↔ _ := resolves_iff s.stored
  have hkey : (activationKeyExists s.activationKeys r.key.name = true ↔
      KeyListed s.activationKeys r.key.name) ↔ _ := decide_infix_iff KeyListed.occurs
  have hchannel : (configChannelExists s.configChannels r.configChannel.label = true ↔
      r.configChannel.label ∈ splitlines s.configChannels) ↔ _ := decide_infix_iff infix_of_mem_splitlines
  constructor
  · intro h
    exact ⟨hresolves.mp h.resolves, hkey.mp h.keyExists, hchannel.mp h.channelExists,
      ensureChannelsSynced_iff.mp h.channels⟩
  · intro h
    have hlisted : r.key.name <:+: s.activationKeys ↔ KeyListed s.activationKeys r.key.name :=
      ⟨h.key, KeyListed.occurs⟩
    have hentry : r.configChannel.label <:+: s.configChannels ↔
        r.configChannel.label ∈ splitlines s.configChannels := ⟨h.configChannel, infix_of_mem_splitlines⟩
    refine ⟨hresolves.mpr h.ending, hkey.mpr h.key, fun hname after failure => ?_,
      hchannel.mpr h.configChannel, fun failure => ?_, ensureChannelsSynced_iff.mpr h.channels⟩
    · rw [ensureActivationKey_iff hname, hlisted]
    · rw [ensureConfigChannelExists_iff, hentry]

/-! ## A name that ends another -/

/-- A server with one activation key, `my-dev`, and no channels. -/
def oneKeyServer : Server where
  activationKeys := "1-my-dev\n".toList
  configChannels := []
  softwareChannels := []
  stored := by decide

/-- The request of the activation key `dev` only. -/
def devRequest : Request where
  key := ⟨"uyuni".toList, "dev".toList, "sles15sp7".toList, [], [], [], [], [], [], [], []⟩
  configChannel := ⟨"base".toList, "base".toList, "base".toList, "normal".toList⟩
  channels := []

/-- **A key whose name is the end of another's**: it is not created, and resolved to the other. -/
theorem suffix_key_confused : ¬ ByIdentity oneKeyServer devRequest := by
  intro h
  obtain ⟨line, hline, hkey⟩ := h.keyExists.mp (by decide +kernel)
  have honly : splitlines oneKeyServer.activationKeys = ["1-my-dev".toList] := by decide
  rw [honly, List.mem_singleton] at hline
  subst hline
  exact absurd hkey (by decide)

end LabInABox.Spacecmd
