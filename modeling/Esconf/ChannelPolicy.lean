import Esconf.SystemFiles
import Esconf.Library.LockedLayers

/-! Channel locks across system files: the documented policy, what the files
of a channel are folded to, and where the code departs from it. -/

namespace Esconf

open NamedTree

def openedPath (state : XmlParserState) : MarkupEvent → Option (List CString)
  | .startElement element attributes =>
    match state.curElem with
    | .none | .value => none
    | .channel | .property =>
      if element = "property".toList then
        (acceptedName attributes).map fun name => nameParts (elementPath state.curPath name)
      else none
  | .endElement _ => none

def openedPaths (host : Host) : XmlParserState → List MarkupEvent → List (List CString)
  | _, [] => []
  | state, event :: events =>
    (openedPath state event).toList ++
      match handleEvent host state event with
      | .ok next => openedPaths host next events
      | _ => []

/-- A file is read into a tree and, next to it, alone: at the paths opened so
far both have the same system values, elsewhere the tree has those it had before. -/
structure Alongside (before : EsconfChannel) (paths : List (List CString))
    (state alone : XmlParserState) : Prop where
  curElem : alone.curElem = state.curElem
  curPath : alone.curPath = state.curPath
  listProperty : alone.listProperty = state.listProperty
  listValue : alone.listValue = state.listValue
  system : state.isSystemFile = true
  aloneSystem : alone.isSystemFile = true
  locked : state.channel.locked = before.locked
  pointer : ∀ name, state.listValue = some name → nameParts name ∈ paths
  there : ∀ path ∈ paths,
    (descend state.properties path).isSome ∧ (descend alone.properties path).isSome
  opened : ∀ path ∈ paths,
    (state.properties.slot path).systemValue = (alone.properties.slot path).systemValue
  others : ∀ path, path ∉ paths →
    (state.properties.slot path).systemValue = (before.properties.slot path).systemValue

def HandledAlongside (before : EsconfChannel) (paths : List (List CString)) :
    Handled → Handled → Prop
  | .ok state, .ok alone => Alongside before paths state alone
  | .error _ state, .error _ alone => Alongside before paths state alone
  | .fault _, .fault _ => True
  | _, _ => False

namespace Alongside

variable {before : EsconfChannel} {paths : List (List CString)} {state alone : XmlParserState}

theorem openBoth (both : Alongside before paths state alone) {path : List CString}
    {tree tree' : PropTree} (one : Opened path state.properties tree)
    (two : Opened path alone.properties tree') :
    Alongside before (paths ++ [path]) (state.withProperties tree) (alone.withProperties tree') := by
  refine ⟨both.curElem, both.curPath, both.listProperty, both.listValue, both.system,
    both.aloneSystem, both.locked, ?_, ?_, ?_, ?_⟩
  · intro name pointed
    exact List.mem_append_left _ (both.pointer name pointed)
  · intro other member
    rcases List.mem_append.mp member with earlier | new
    · exact ⟨one.kept other (both.there other earlier).1, two.kept other (both.there other earlier).2⟩
    · rw [List.mem_singleton.mp new]
      exact ⟨one.there, two.there⟩
  · intro other member
    change (tree.slot other).systemValue = (tree'.slot other).systemValue
    by_cases same : other = path
    · rw [same, one.systemValue, two.systemValue]
    · rw [one.others other same, two.others other same]
      have earlier : other ∈ paths := by simpa [same] using member
      exact both.opened other earlier
  · intro other missing
    rw [List.mem_append, List.mem_singleton, not_or] at missing
    change (tree.slot other).systemValue = _
    rw [one.others other missing.2]
    exact both.others other missing.1

theorem updateBoth (both : Alongside before paths state alone) {name : CString}
    (member : nameParts name ∈ paths) (f : GValue → GValue) :
    Alongside before paths (state.updateSlot name f) (alone.updateSlot name f) := by
  have there := both.there _ member
  refine ⟨both.curElem, both.curPath, both.listProperty, both.listValue, both.system,
    both.aloneSystem, both.locked, both.pointer, ?_, ?_, ?_⟩
  · intro other member
    exact ⟨descend_update_isSome _ _ _ _ (both.there other member).1,
      descend_update_isSome _ _ _ _ (both.there other member).2⟩
  · intro other otherMember
    change (PropTree.slot (update _ _ _) other).systemValue =
      (PropTree.slot (update _ _ _) other).systemValue
    rw [slot_update, slot_update, both.system, both.aloneSystem]
    by_cases same : other = nameParts name
    · rw [if_pos (And.intro same there.1), if_pos (And.intro same there.2)]
      exact congrArg f (both.opened _ member)
    · rw [if_neg fun clash => same clash.1, if_neg fun clash => same clash.1]
      exact both.opened other otherMember
  · intro other missing
    change (PropTree.slot (update _ _ _) other).systemValue = _
    rw [slot_update, if_neg]
    · exact both.others other missing
    · rintro ⟨rfl, _⟩
      exact missing member

theorem enterBoth (both : Alongside before paths state alone) (fullpath : CString) :
    Alongside before paths (enterProperty fullpath state) (enterProperty fullpath alone) :=
  ⟨rfl, rfl, both.listProperty, both.listValue, both.system, both.aloneSystem, both.locked,
    both.pointer, both.there, both.opened, both.others⟩

theorem propertyValue (both : Alongside before paths state alone) (host : Host)
    {fullpath : CString} (member : nameParts fullpath ∈ paths) (type : CString)
    (value : Option CString) :
    HandledAlongside before paths (xmlPropertyValue host state fullpath type value)
      (xmlPropertyValue host alone fullpath type value) := by
  rcases xmlPropertyValue_cases host fullpath type value with
    ⟨error, outcome⟩ | outcome | ⟨zero, outcome⟩ | ⟨zero, error, outcome⟩ | ⟨parsed, outcome⟩ |
      ⟨parsed, outcome⟩ <;> rw [outcome, outcome]
  · exact both
  · exact both.enterBoth fullpath
  · trivial
  · exact both.updateBoth member fun _ => zero
  · exact (both.enterBoth fullpath).updateBoth member fun _ => parsed
  · have set := (both.enterBoth fullpath).updateBoth member fun _ => parsed
    refine ⟨set.curElem, set.curPath, rfl, rfl, set.system, set.aloneSystem, set.locked, ?_,
      set.there, set.opened, set.others⟩
    intro name pointed
    cases pointed
    exact member

theorem property (both : Alongside before paths state alone) (host : Host)
    (attributes : Attributes) :
    HandledAlongside before (paths ++ ((acceptedName attributes).map fun name =>
        nameParts (elementPath alone.curPath name)).toList)
      (xmlHandleProperty host state attributes) (xmlHandleProperty host alone attributes) := by
  rcases xmlHandleProperty_system host attributes with
    ⟨refused, error, outcome⟩ | ⟨name, type, accepted, outcome⟩
  · rw [outcome, outcome, refused, Option.map_none, Option.toList_none, List.append_nil]
    exact both
  · rw [accepted, Option.map_some, Option.toList_some]
    have one := outcome state both.system
    have two := outcome alone both.aloneSystem
    rw [both.curPath] at two ⊢
    rcases one with ⟨invalid, one⟩ | ⟨valid, tree, opened, one⟩ <;>
      rcases two with ⟨invalid', two⟩ | ⟨valid', tree', opened', two⟩
    · rw [one, two]
      trivial
    · rw [invalid] at valid'
      cases valid'
    · rw [valid] at invalid'
      cases invalid'
    · rw [one, two]
      exact (both.openBoth opened opened').propertyValue host (by simp) type _

theorem value (both : Alongside before paths state alone) (host : Host) (attributes : Attributes) :
    HandledAlongside before paths (xmlHandleValue host state attributes)
      (xmlHandleValue host alone attributes) := by
  rcases xmlHandleValue_cases host attributes with ⟨error, outcome⟩ | outcome | ⟨parsed, outcome⟩ <;>
    rw [outcome, outcome]
  · exact both
  · trivial
  · change Alongside before paths (addElement parsed state) (addElement parsed alone)
    unfold addElement
    rw [both.listValue]
    cases pointed : state.listValue with
    | none =>
        exact ⟨rfl, both.curPath, both.listProperty, rfl, both.system, both.aloneSystem,
          both.locked, nofun, both.there, both.opened, both.others⟩
    | some slot =>
        have added := both.updateBoth (both.pointer slot pointed) (ptrArrayAdd parsed)
        exact ⟨rfl, added.curPath, added.listProperty, added.listValue, added.system,
          added.aloneSystem, added.locked, added.pointer, added.there, added.opened,
          added.others⟩

theorem endBoth (both : Alongside before paths state alone) :
    Alongside before paths (endElem state) (endElem alone) := by
  unfold endElem
  rw [both.curElem, both.curPath]
  split
  · exact ⟨rfl, rfl, both.listProperty, both.listValue, both.system, both.aloneSystem,
      both.locked, both.pointer, both.there, both.opened, both.others⟩
  · dsimp only
    split <;> exact ⟨rfl, rfl, rfl, rfl, both.system, both.aloneSystem, both.locked, nofun,
      both.there, both.opened, both.others⟩
  · exact ⟨rfl, rfl, both.listProperty, both.listValue, both.system, both.aloneSystem,
      both.locked, both.pointer, both.there, both.opened, both.others⟩
  · exact both

theorem event (both : Alongside before paths state alone) (host : Host) {event : MarkupEvent}
    (inside : ∀ attributes, event ≠ .startElement "channel".toList attributes) :
    HandledAlongside before (paths ++ (openedPath alone event).toList)
      (handleEvent host state event) (handleEvent host alone event) := by
  cases event with
  | endElement element =>
      rw [openedPath, Option.toList_none, List.append_nil]
      exact both.endBoth
  | startElement element attributes =>
      have notChannel : element ≠ "channel".toList := by
        rintro rfl
        exact inside attributes rfl
      have unchanged : HandledAlongside before (paths ++ (none : Option (List CString)).toList)
          (.error (notAllowed element .property) state)
          (.error (notAllowed element .property) alone) := by
        rw [Option.toList_none, List.append_nil]
        exact both
      change HandledAlongside _ _ (startElem host state element attributes)
        (startElem host alone element attributes)
      unfold startElem openedPath
      rw [both.curElem, both.listProperty, both.listValue]
      cases elem : state.curElem <;> dsimp only
      case none =>
        rw [if_neg notChannel, if_neg notChannel]
        exact unchanged
      case value => exact unchanged
      case channel =>
        by_cases isProperty : element = "property".toList
        · rw [if_pos isProperty, if_pos isProperty, if_pos isProperty]
          exact both.property host attributes
        · rw [if_neg isProperty, if_neg isProperty, if_neg isProperty]
          exact unchanged
      case property =>
        by_cases isProperty : element = "property".toList
        · rw [if_pos isProperty, if_pos isProperty, if_pos isProperty]
          exact both.property host attributes
        · rw [if_neg isProperty, if_neg isProperty, if_neg isProperty]
          split
          · rw [Option.toList_none, List.append_nil]
            exact both.value host attributes
          · exact unchanged

theorem events (both : Alongside before paths state alone) (host : Host)
    {events : List MarkupEvent}
    (inside : ∀ attributes, .startElement "channel".toList attributes ∉ events) :
    HandledAlongside before (paths ++ openedPaths host alone events)
      (parseEvents host state events) (parseEvents host alone events) := by
  induction events generalizing paths state alone with
  | nil => rw [openedPaths, List.append_nil]; exact both
  | cons event events ih =>
      have first : ∀ attributes, event ≠ .startElement "channel".toList attributes :=
        fun attributes same => inside attributes (by rw [same]; exact List.mem_cons_self)
      have step := both.event host first
      have later : ∀ attributes, .startElement "channel".toList attributes ∉ events :=
        fun attributes member => inside attributes (List.mem_cons_of_mem _ member)
      rw [parseEvents, parseEvents, openedPaths, ← List.append_assoc]
      cases one : handleEvent host state event <;> cases two : handleEvent host alone event <;>
        rw [one, two] at step
      case ok.ok => exact ih step later
      case error.error => rw [List.append_nil]; exact step
      case fault.fault => trivial
      all_goals exact step.elim

end Alongside

/-- A system file as the handlers see it: the attributes of its one channel
element and the events after that element starts. -/
structure ChannelFile where
  attributes : Attributes
  body : List MarkupEvent
  oneChannel : ∀ attributes, .startElement "channel".toList attributes ∉ body

def insideChannel (channel : EsconfChannel) : XmlParserState :=
  { startState channel true with curElem := .channel }

namespace ChannelFile

def events (file : ChannelFile) : List MarkupEvent :=
  .startElement "channel".toList file.attributes :: file.body

def accepted (file : ChannelFile) : Bool := (channelError file.attributes).isNone

def mentionsLock (file : ChannelFile) : Bool :=
  (filled (attributeValue file.attributes "unlocked".toList)).isSome ||
    (filled (attributeValue file.attributes "locked".toList)).isSome

/-- Whether a file locks the channel for this user. -/
def locks (host : Host) (file : ChannelFile) : Bool :=
  match filled (attributeValue file.attributes "unlocked".toList) with
  | some list => !userIsInList host list
  | none =>
    match filled (attributeValue file.attributes "locked".toList) with
    | some list => userIsInList host list
    | none => false

def mergeInto (host : Host) (channel : EsconfChannel) (file : ChannelFile) : EsconfChannel :=
  (parseEvents host (insideChannel channel) file.body).state.channel

def Survives (host : Host) (channel : EsconfChannel) (file : ChannelFile) : Prop :=
  ∀ state, parseEvents host (insideChannel channel) file.body ≠ .fault state

/-- What the file itself says of each path, if anything. -/
def entries (host : Host) (file : ChannelFile) (path : List CString) : Option GValue :=
  if path ∈ openedPaths host (insideChannel .root) file.body then
    some ((file.mergeInto host .root).properties.slot path).systemValue
  else none

def layer (host : Host) (file : ChannelFile) : LockedLayers.Layer (List CString) GValue :=
  ⟨file.locks host, file.entries host⟩

theorem lockedState_eq (host : Host) (file : ChannelFile) :
    lockedState host file.attributes =
      if file.mentionsLock then some (file.locks host) else none := by
  unfold lockedState mentionsLock locks
  cases filled (attributeValue file.attributes "unlocked".toList) <;>
    cases filled (attributeValue file.attributes "locked".toList) <;> rfl

theorem locks_mentionsLock {host : Host} {file : ChannelFile} (locks : file.locks host = true) :
    file.mentionsLock = true := by
  unfold ChannelFile.locks at locks
  unfold mentionsLock
  cases one : filled (attributeValue file.attributes "unlocked".toList) with
  | some list => rfl
  | none =>
      cases two : filled (attributeValue file.attributes "locked".toList) with
      | some list => rfl
      | none => rw [one, two] at locks; cases locks

end ChannelFile

open ChannelFile

theorem alongside_start (channel : EsconfChannel) :
    Alongside channel [] (insideChannel channel) (insideChannel .root) :=
  ⟨rfl, rfl, rfl, rfl, rfl, rfl, rfl, nofun, nofun, nofun, fun _ _ => rfl⟩

/-- Merging a file puts what it says over what the channel said, whatever the
channel was. -/
theorem mergeInto_values {host : Host} {channel : EsconfChannel} {file : ChannelFile}
    (survives : file.Survives host channel) :
    (file.mergeInto host channel).locked = channel.locked ∧
      ∀ path, ((file.mergeInto host channel).properties.slot path).systemValue =
        LockedLayers.overlay (fun path => (channel.properties.slot path).systemValue)
          (file.entries host) path := by
  have run := (alongside_start channel).events host file.oneChannel
  rw [List.nil_append] at run
  have both : Alongside channel (openedPaths host (insideChannel .root) file.body)
      (parseEvents host (insideChannel channel) file.body).state
      (parseEvents host (insideChannel .root) file.body).state := by
    cases one : parseEvents host (insideChannel channel) file.body <;>
      cases two : parseEvents host (insideChannel .root) file.body <;> rw [one, two] at run
    case ok.ok => exact run
    case error.error => exact run
    case fault.fault state _ => exact absurd one (survives state)
    all_goals exact run.elim
  refine ⟨both.locked, ?_⟩
  intro path
  unfold LockedLayers.overlay entries
  split
  · next member => exact both.opened path member
  · next missing => exact both.others path missing

/-- One step of the policy the comments of `esconf_xml_handle_channel` document. -/
def documentedMerge (host : Host) (channel : EsconfChannel) (file : ChannelFile) : EsconfChannel :=
  if !file.accepted then channel
  else match channel.locked, file.locks host with
    | true, false => channel
    | false, true => file.mergeInto host { channel with properties := .root, locked := true }
    | _, _ => file.mergeInto host channel

/-- A text on the disk is read as the events of a file. -/
def Holds (host : Host) (disk : Disk) (filename : CString) (file : ChannelFile) : Prop :=
  ∃ contents, disk filename = some contents ∧ (host.markupParse contents).1 = file.events

/-- What a channel gives for every path. -/
def EsconfChannel.policy (channel : EsconfChannel) : LockedLayers.Store (List CString) GValue :=
  ⟨channel.locked, fun path => (channel.properties.slot path).effective⟩

theorem effective_system {prop : EsconfProperty} (unset : prop.value = .invalid) :
    prop.effective = prop.systemValue := by
  rw [EsconfProperty.effective, unset]
  rfl

/-- What `esconf_backend_perchannel_xml_merge_file` does with a system file. The
last case leaves the documented policy when the channel is locked and the file
has no lock attribute. -/
theorem mergeFile_cases {host : Host} {disk : Disk} {filename : CString} {file : ChannelFile}
    {channel : EsconfChannel} {merged : Bool × EsconfChannel} (holds : Holds host disk filename file)
    (done : mergeFile host disk filename true channel = some merged) :
    (file.accepted = false ∧ merged.2 = channel) ∨
      (file.accepted = true ∧ file.mentionsLock = true ∧ channel.locked = true ∧
        file.locks host = false ∧ merged.2 = channel) ∨
      (file.accepted = true ∧ channel.locked = false ∧ file.locks host = true ∧
        file.Survives host { channel with properties := .root, locked := true } ∧
        merged.2 = file.mergeInto host { channel with properties := .root, locked := true }) ∨
      (file.accepted = true ∧ (channel.locked = file.locks host ∨ file.mentionsLock = false) ∧
        file.Survives host channel ∧ merged.2 = file.mergeInto host channel) := by
  obtain ⟨contents, here, parsed⟩ := holds
  obtain ⟨survives, result⟩ := mergeFile_read here done
  rw [parsed, events, parseEvents] at survives result
  change ∀ state, (match xmlHandleChannel host (startState channel true) file.attributes with
    | .ok next => parseEvents host next file.body
    | stopped => stopped) ≠ .fault state at survives
  change merged.2 = (match xmlHandleChannel host (startState channel true) file.attributes with
    | .ok next => parseEvents host next file.body
    | stopped => stopped).state.channel at result
  unfold xmlHandleChannel at survives result
  rw [lockedState_eq] at survives result
  unfold accepted
  cases refused : channelError file.attributes with
  | some error =>
      rw [refused] at result
      exact .inl ⟨rfl, result⟩
  | none =>
      rw [refused] at survives result
      cases mention : file.mentionsLock with
      | false =>
          rw [mention] at survives result
          exact .inr (.inr (.inr ⟨rfl, Or.inr rfl, survives, result⟩))
      | true =>
          rw [mention] at survives result
          cases before : channel.locked <;> cases now : file.locks host <;>
            simp [startState, before, now] at survives result
          · exact .inr (.inr (.inr ⟨rfl, Or.inl rfl, survives, result⟩))
          · exact .inr (.inr (.inl ⟨rfl, rfl, rfl, survives, result⟩))
          · exact .inr (.inl ⟨rfl, rfl, rfl, rfl, result⟩)
          · exact .inr (.inr (.inr ⟨rfl, Or.inl rfl, survives, result⟩))

/-- The steps that are left when no file is silent about locks after the channel
is locked: those of the documented policy. -/
inductive PolicyStep (host : Host) (channel : EsconfChannel) (file : ChannelFile) :
    EsconfChannel → Prop where
  | refused (refused : file.accepted = false) : PolicyStep host channel file channel
  | skipped (accepted : file.accepted = true) (locked : channel.locked = true)
      (lifts : file.locks host = false) : PolicyStep host channel file channel
  | anew (accepted : file.accepted = true) (unlocked : channel.locked = false)
      (locks : file.locks host = true)
      (survives : file.Survives host { channel with properties := .root, locked := true }) :
      PolicyStep host channel file
        (file.mergeInto host { channel with properties := .root, locked := true })
  | merged (accepted : file.accepted = true) (same : channel.locked = file.locks host)
      (survives : file.Survives host channel) :
      PolicyStep host channel file (file.mergeInto host channel)

theorem mergeFile_step {host : Host} {disk : Disk} {filename : CString} {file : ChannelFile}
    {channel : EsconfChannel} {merged : Bool × EsconfChannel} (holds : Holds host disk filename file)
    (done : mergeFile host disk filename true channel = some merged)
    (mentioned : channel.locked = true → file.accepted = true → file.mentionsLock = true) :
    PolicyStep host channel file merged.2 := by
  rcases mergeFile_cases holds done with
    ⟨refused, result⟩ | ⟨accepted, _, locked, lifts, result⟩ |
      ⟨accepted, unlocked, locks, survives, result⟩ | ⟨accepted, same, survives, result⟩ <;>
    rw [result]
  · exact .refused refused
  · exact .skipped accepted locked lifts
  · exact .anew accepted unlocked locks survives
  · refine .merged accepted ?_ survives
    rcases same with same | silent
    · exact same
    · cases locks : file.locks host with
      | true => rw [locks_mentionsLock locks] at silent; cases silent
      | false =>
          by_contra locked
          rw [mentioned (by simpa using locked) accepted] at silent
          cases silent

theorem PolicyStep.documented {host : Host} {channel after : EsconfChannel} {file : ChannelFile}
    (step : PolicyStep host channel file after) : after = documentedMerge host channel file := by
  unfold documentedMerge
  cases step with
  | refused refused => rw [refused]; rfl
  | skipped accepted locked lifts => rw [accepted, locked, lifts]; rfl
  | anew accepted unlocked locks => rw [accepted, unlocked, locks]; rfl
  | merged accepted same => rw [accepted, same]; cases file.locks host <;> rfl

/-- The values after a step are those of the layer the file is. -/
theorem PolicyStep.policy {host : Host} {channel after : EsconfChannel} {file : ChannelFile}
    (step : PolicyStep host channel file after) (clean : NoUserValues channel)
    (cleanAfter : NoUserValues after) :
    after.policy = if file.accepted then
      LockedLayers.merge .invalid channel.policy (file.layer host) else channel.policy := by
  have values : ∀ start : EsconfChannel, NoUserValues start → file.Survives host start →
      after = file.mergeInto host start → after.policy =
        ⟨start.locked, LockedLayers.overlay start.policy.values (file.entries host)⟩ := by
    intro start cleanStart survives result
    obtain ⟨lock, slots⟩ := mergeInto_values survives
    rw [← result] at lock slots
    refine LockedLayers.Store.ext lock (funext fun path => ?_)
    change (after.properties.slot path).effective = _
    rw [effective_system (cleanAfter path), slots path]
    unfold LockedLayers.overlay
    congr 1
    exact (effective_system (cleanStart path)).symm
  cases step with
  | refused refused => rw [refused]; rfl
  | skipped accepted locked lifts => rw [if_pos accepted, LockedLayers.merge_skip _ locked lifts]
  | anew accepted unlocked locks survives =>
      have root := noUserValues_root true channel.dirty
      rw [if_pos accepted, LockedLayers.merge_anew _ unlocked locks, values _ root survives rfl]
      congr 1
      funext path
      unfold LockedLayers.overlay
      congr 1
      exact (effective_system (root path)).trans (congrArg _ (SystemReading.root_slot path))
  | merged accepted same survives =>
      rw [if_pos accepted, LockedLayers.merge_over _ same, values _ clean survives rfl]
      rfl

/-- No file that is silent about locks comes after one that locks the channel. -/
def LocksRenewed (host : Host) (files : List ChannelFile) : Prop :=
  files.Pairwise fun earlier later => earlier.accepted = true → earlier.locks host = true →
    later.accepted = true → later.mentionsLock = true

theorem PolicyStep.locked {host : Host} {channel after : EsconfChannel} {file : ChannelFile}
    (step : PolicyStep host channel file after) (locked : after.locked = true) :
    channel.locked = true ∨ (file.accepted = true ∧ file.locks host = true) := by
  cases step with
  | refused refused => exact Or.inl locked
  | skipped accepted locked lifts => exact Or.inl locked
  | anew accepted unlocked locks survives => exact Or.inr ⟨accepted, locks⟩
  | merged accepted same survives => rw [(mergeInto_values survives).1] at locked; exact Or.inl locked

theorem mergeSystemFiles_documented {host : Host} {disk : Disk} {filenames : List CString}
    {files : List ChannelFile} {channel after : EsconfChannel}
    (read : List.Forall₂ (Holds host disk) filenames files) (clean : NoUserValues channel)
    (mentioned : channel.locked = true →
      ∀ file ∈ files, file.accepted = true → file.mentionsLock = true)
    (renewed : LocksRenewed host files)
    (loaded : mergeSystemFiles host disk filenames channel = some after) :
    after = files.foldl (documentedMerge host) channel ∧
      after.policy = LockedLayers.mergeAll .invalid
        ((files.filter accepted).map (layer host)) channel.policy := by
  induction read generalizing channel with
  | nil => cases loaded; exact ⟨rfl, rfl⟩
  | @cons filename file filenames files holds read ih =>
      obtain ⟨merged, first, later⟩ := Option.bind_eq_some_iff.mp loaded
      obtain ⟨head, tail⟩ := List.pairwise_cons.mp renewed
      have step := mergeFile_step holds first fun locked => mentioned locked file (by simp)
      have cleanAfter := mergeFile_system clean first
      have mentioned' : merged.2.locked = true →
          ∀ file ∈ files, file.accepted = true → file.mentionsLock = true := by
        intro locked next member
        rcases step.locked locked with before | ⟨accepted, locks⟩
        · exact mentioned before next (List.mem_cons_of_mem _ member)
        · exact head next member accepted locks
      obtain ⟨trees, values⟩ := ih cleanAfter mentioned' tail later
      rw [step.documented] at trees
      rw [step.policy clean cleanAfter] at values
      refine ⟨trees, values.trans ?_⟩
      cases taken : file.accepted <;> simp [taken, LockedLayers.mergeAll]

/-- When every file read after the channel is locked says whether it keeps the
lock, loading is the documented fold: on trees, on the values they give, and
with the values of a locked channel all from files that lock it. -/
theorem systemFiles_follow_policy (host : Host) (disk : Disk) (filenames : List CString)
    (files : List ChannelFile) (channel : EsconfChannel)
    (read : List.Forall₂ (Holds host disk) filenames files)
    (renewed : LocksRenewed host files)
    (loaded : mergeSystemFiles host disk filenames .root = some channel) :
    channel = files.foldl (documentedMerge host) .root ∧
      channel.policy = LockedLayers.mergeAll .invalid ((files.filter accepted).map (layer host))
        (LockedLayers.empty .invalid) ∧
      (channel.locked = true → ∀ path, (channel.properties.slot path).effective.isSet = true →
        ∃ file ∈ files, file.accepted = true ∧ file.locks host = true ∧
          file.entries host path = some (channel.properties.slot path).effective) := by
  have clean : NoUserValues .root := noUserValues_root false false
  obtain ⟨trees, values⟩ := mergeSystemFiles_documented read clean
    (fun locked => by cases locked) renewed loaded
  have start : EsconfChannel.root.policy = LockedLayers.empty .invalid := by
    refine LockedLayers.Store.ext rfl (funext fun path => ?_)
    exact congrArg EsconfProperty.effective (SystemReading.root_slot path)
  rw [start] at values
  refine ⟨trees, values, ?_⟩
  intro locked path set
  have sound := LockedLayers.mergeAll_fromLocking GValue.invalid
    ((files.filter accepted).map (layer host))
  rw [← values] at sound
  rcases sound locked path with blank | ⟨source, member, locks, entry⟩
  · change (channel.properties.slot path).effective = _ at blank
    rw [blank] at set
    cases set
  · obtain ⟨file, inside, rfl⟩ := List.mem_map.mp member
    obtain ⟨inside, accepted⟩ := List.mem_filter.mp inside
    exact ⟨file, inside, accepted, locks, entry⟩

section Silent

def lockingText : CString :=
  "<channel name='c' version='1.0' unlocked='root'><property name='a' type='int' value='1'/></channel>".toList

def silentText : CString :=
  "<channel name='c' version='1.0'><property name='a' type='int' value='2'/></channel>".toList

def propertyEvents (name type value : CString) : List MarkupEvent :=
  [.startElement "property".toList
      [("name".toList, name), ("type".toList, type), ("value".toList, value)],
    .endElement "property".toList]

def lockingFile : ChannelFile where
  attributes :=
    [("name".toList, "c".toList), ("version".toList, "1.0".toList), ("unlocked".toList, "root".toList)]
  body := propertyEvents "a".toList "int".toList "1".toList ++ [.endElement "channel".toList]
  oneChannel := by simp [propertyEvents]

def silentFile : ChannelFile where
  attributes := [("name".toList, "c".toList), ("version".toList, "1.0".toList)]
  body := propertyEvents "a".toList "int".toList "2".toList ++ [.endElement "channel".toList]
  oneChannel := by simp [propertyEvents]

def kioskHost : Host :=
  .bare [(lockingText, lockingFile.events), (silentText, silentFile.events)]

def lockingName : CString := "/etc/c.xml".toList

def silentName : CString := "/usr/c.xml".toList

def kioskDisk : Disk := fun filename =>
  if filename = lockingName then some lockingText
  else if filename = silentName then some silentText
  else none

theorem kiosk_locking : Holds kioskHost kioskDisk lockingName lockingFile := ⟨lockingText, rfl, rfl⟩

theorem kiosk_silent : Holds kioskHost kioskDisk silentName silentFile := ⟨silentText, rfl, rfl⟩

set_option maxRecDepth 4000 in
theorem systemFiles_follow_policy_kiosk :
    ∃ channel, mergeSystemFiles kioskHost kioskDisk [silentName, lockingName] .root = some channel ∧
      channel = [silentFile, lockingFile].foldl (documentedMerge kioskHost) .root ∧
      (channel.properties.slot ["a".toList]).effective = .int 1 := by
  have read : List.Forall₂ (Holds kioskHost kioskDisk) [silentName, lockingName]
      [silentFile, lockingFile] := .cons kiosk_silent (.cons kiosk_locking .nil)
  have renewed : LocksRenewed kioskHost [silentFile, lockingFile] := by
    refine List.pairwise_cons.mpr ⟨?_, List.pairwise_singleton _ _⟩
    intro later _ _ locks
    cases locks
  exact ⟨_, rfl, (systemFiles_follow_policy _ _ _ _ _ read renewed rfl).1, by decide⟩

set_option maxRecDepth 4000 in
/-- The other way round the silent file is merged into the locked channel. -/
theorem silentFile_overrides :
    ∃ channel, mergeSystemFiles kioskHost kioskDisk [lockingName, silentName] .root = some channel ∧
      channel.locked = true ∧ lockingFile.locks kioskHost = true ∧
      silentFile.locks kioskHost = false ∧
      (channel.properties.slot ["a".toList]).effective = .int 2 ∧
      (([lockingFile, silentFile].foldl (documentedMerge kioskHost) .root).properties.slot
        ["a".toList]).effective = .int 1 :=
  ⟨_, rfl, rfl, by decide, by decide, by decide, by decide⟩

end Silent

end Esconf
