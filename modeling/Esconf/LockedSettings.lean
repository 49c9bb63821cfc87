import Esconf.LockedReading

/-! A written user file over system files that lock properties of the channel: when the
locked properties are ignored, and only they. -/

namespace Esconf

open NamedTree

/-- No value, or one that came over the bus. -/
def Received (value : GValue) : Prop :=
  value = .invalid ∨ ∃ variant, esconfGvariantToGvalue variant = some value

def systemFilesOf (host : Host) (disk : Disk) (channelName filename : CString) : List CString :=
  (host.resourceLookupAll disk (configFileStem channelName)).reverse.filter
    fun place => some filename != some place

/-- The user file is what was written for a tree with received values; the system files
give a channel that is not locked, but whose properties may be. -/
structure WrittenOver (host : Host) (disk : Disk) (channelName filename : CString)
    (tree : PropTree) (base : EsconfChannel) : Prop where
  valid : esconfChannelIsValid channelName = none
  received : ∀ path, path ≠ [] → Received (tree.slot path).value
  stored : ∃ text, flushText host channelName tree = .ok text ∧ disk filename = some text
  saved : host.resourceSaveLocation (configFileStem channelName) = some filename
  layers : mergeSystemFiles host disk (systemFilesOf host disk channelName filename) .root =
    some base
  unlocked : base.locked = false

/-- The channel is loaded; the user values of the locked properties are left out, and all
others are those of the file. -/
def IgnoresLocked (host : Host) (disk : Disk) (channelName : CString) (tree : PropTree)
    (base : EsconfChannel) : Prop :=
  ∃ channel, loadChannel host disk channelName = some (.ok channel) ∧
    ∀ path, path ≠ [] → (channel.properties.slot path).value =
      if (base.properties.slot path).locked then .invalid else reread host (tree.slot path).value

/-- The tree can be told apart in the file, and the locked properties do not disturb what
stands around them there. -/
structure LocksUndisturbed (host : Host) (tree : PropTree) (base : EsconfChannel) : Prop where
  tidy : Tidy tree
  keep : LocksKeep (fun path => (base.properties.slot path).locked) host
    (openingsAll (fun path => (base.properties.slot path).locked) [] none tree.children)

theorem WrittenOver.readable {host : Host} {disk : Disk} {channelName filename : CString}
    {tree : PropTree} {base : EsconfChannel}
    (holds : WrittenOver host disk channelName filename tree base) (tidy : Tidy tree)
    (path : List CString) (full : path ≠ []) : rereads (tree.slot path).value = true := by
  obtain ⟨text, written, _⟩ := holds.stored
  have whole : flushableAll 1 tree.children = true := by
    rw [← flushText_isOk host channelName, written]
    rfl
  have known := tidy.flushable_iff.mp whole path full
  rcases holds.received path full with unset | ⟨variant, decoded⟩
  · rw [unset]
    rfl
  · exact decoded_rereads decoded known

theorem WrittenOver.loaded {host : Host} {disk : Disk} {channelName filename : CString}
    {tree : PropTree} {base : EsconfChannel} (prints : PrintsDoubles host)
    (markup : GMarkupNormalizes host (documentTags host channelName tree))
    (holds : WrittenOver host disk channelName filename tree base) (tidy : Tidy tree) :
    ∃ channel, loadChannel host disk channelName = some (.ok channel) ∧
      ∀ path, (channel.properties.slot path).value =
        (readAll (fun path => (base.properties.slot path).locked) host
          (openingsAll (fun path => (base.properties.slot path).locked) [] none tree.children)
          fun _ => .invalid).1 path := by
  obtain ⟨text, written, stored⟩ := holds.stored
  have clean := mergeSystemFiles_noUserValues (noUserValues_root false false) holds.layers
  have parsed := written_delivered (acceptedName_plain holds.valid).2.2
    (fun child _ => prints.all child) markup written
  obtain ⟨handled, read, survives, _, values⟩ := locked_document_read tidy
    (fun _ _ => prints.prints _) (holds.readable tidy) holds.valid holds.unlocked clean
    fun _ => rfl
  have merged : mergeFile host disk filename false base =
      parseResult true handled := by
    rw [mergeFile, stored]
    dsimp only
    rw [parsed, ← read]
    rfl
  have result : ∃ fine, mergeFile host disk filename false base =
      some (fine, handled.state.channel) := by
    rw [merged]
    cases handled with
    | ok state => exact ⟨true, rfl⟩
    | error error state => exact ⟨false, rfl⟩
    | fault state => exact absurd rfl (survives state)
  obtain ⟨fine, done⟩ := result
  refine ⟨handled.state.channel, ?_, values⟩
  have layers := holds.layers
  unfold systemFilesOf at layers
  unfold loadChannel
  dsimp only
  rw [holds.saved, layers, if_neg (by simp), Option.bind_some, holds.unlocked]
  dsimp only
  rw [if_neg Bool.false_ne_true, done]
  rfl

theorem received_of_walk {tree : PropTree} (distinct : Distinct tree)
    (each : ∀ visited ∈ preorder [] tree, Received visited.2.value) (path : List CString) :
    Received (tree.slot path).value := by
  cases found : descend tree path with
  | none =>
      have blank : tree.slot path = .blank := lookup_of_missing found
      rw [blank]
      exact Or.inl rfl
  | some node =>
      have slot : tree.slot path = node.data := lookup_of_descend found
      rw [slot]
      exact each (path, node.data) ((mem_preorder distinct).mpr ⟨path, node, rfl, found, rfl⟩)

/-- Loading a written file over locks ignores the locked properties and only them if the
first locked array that is not empty stands where no array is open, and only locked or unset
properties follow; where the names can be told apart, only then. -/
theorem locked_ignored_iff (host : Host) (disk : Disk) (channelName filename : CString)
    (tree : PropTree) (base : EsconfChannel) (prints : PrintsDoubles host)
    (markup : GMarkupNormalizes host (documentTags host channelName tree))
    (holds : WrittenOver host disk channelName filename tree base) :
    (LocksUndisturbed host tree base → IgnoresLocked host disk channelName tree base) ∧
    (Tidy tree → IgnoresLocked host disk channelName tree base →
      LocksUndisturbed host tree base) := by
  constructor
  · intro undisturbed
    have tidy := undisturbed.tidy
    obtain ⟨channel, loads, values⟩ := holds.loaded prints markup tidy
    refine ⟨channel, loads, ?_⟩
    intro path full
    rw [values path]
    exact (readAll_tree host tidy.distinct).mpr undisturbed.keep path full
  · intro tidy ignores
    obtain ⟨channel, loads, values⟩ := holds.loaded prints markup tidy
    obtain ⟨again, loads', ignored⟩ := ignores
    rw [loads] at loads'
    cases loads'
    refine ⟨tidy, (readAll_tree host tidy.distinct).mp ?_⟩
    intro path full
    rw [← values path]
    exact ignored path full

section Arrays

def arrayNode : PropTree := .node "a".toList ⟨.ptrArray [.int 5], .invalid, false⟩ []

def numberNode : PropTree := .node "b".toList ⟨.int 7, .invalid, false⟩ []

def arrayTree (nodes : List PropTree) : PropTree := .node "/".toList .blank nodes

def lockFile : ChannelDocument where
  attributes := channelAttributesOf "c"
  properties := [.property
    (attributesOf "a" "empty" none ++ [("locked".toList, "user".toList)]) [] []]

def lockText : CString := channelText ["<property name='a' type='empty' locked='user'/>"]

def arrayHost (nodes : List PropTree) : Host :=
  { Host.bare [(lockText, lockFile.events),
      (tagsText (.bare []) (documentTags (.bare []) "c".toList (arrayTree nodes)),
        deliveredEvents (documentTags (.bare []) "c".toList (arrayTree nodes)))] with
    resourcePlaces := fun stem => ["/home/".toList ++ stem, "/etc/".toList ++ stem]
    resourceSaveLocation := fun stem => some ("/home/".toList ++ stem)
    strtod := fun _ => (0, [], false) }

def arrayDisk (nodes : List PropTree) : Disk := fun name =>
  if name = "/home/".toList ++ configFileStem "c".toList then
    some (tagsText (.bare []) (documentTags (.bare []) "c".toList (arrayTree nodes)))
  else if name = "/etc/".toList ++ configFileStem "c".toList then some lockText
  else none

def arrayBase : EsconfChannel :=
  ⟨.node "/".toList .blank [.node "a".toList ⟨.invalid, .invalid, true⟩ []], false, false⟩

def arrayFile : CString := "/home/".toList ++ configFileStem "c".toList

theorem arrayHost_prints (nodes : List PropTree) : PrintsDoubles (arrayHost nodes) :=
  ⟨fun _ => (by decide : PlainText "0.000000".toList),
    fun _ => (by decide : CleanText "0.000000".toList), fun _ => ⟨.double 0, rfl⟩⟩

theorem array_distinct (nodes : List PropTree)
    (each : nodes = [arrayNode, numberNode] ∨ nodes = [numberNode, arrayNode]) :
    Distinct (arrayTree nodes) := by
  have leaves : ∀ child ∈ nodes, Distinct child := by
    rcases each with rfl | rfl
    all_goals
      exact List.forall_mem_cons.mpr ⟨.node (by decide) nofun,
        List.forall_mem_singleton.mpr (.node (by decide) nofun)⟩
  refine .node ?_ leaves
  rcases each with rfl | rfl <;> decide

theorem array_tidy (nodes : List PropTree)
    (each : nodes = [arrayNode, numberNode] ∨ nodes = [numberNode, arrayNode]) :
    Tidy (arrayTree nodes) := by
  apply tidy_of_names (array_distinct nodes each)
  rcases each with rfl | rfl <;> decide

set_option maxRecDepth 8000 in
theorem array_over (nodes : List PropTree)
    (each : nodes = [arrayNode, numberNode] ∨ nodes = [numberNode, arrayNode]) :
    WrittenOver (arrayHost nodes) (arrayDisk nodes) "c".toList arrayFile (arrayTree nodes)
      arrayBase := by
  constructor
  · decide
  · intro path _
    apply received_of_walk (array_distinct nodes each)
    have array : Received (.ptrArray [.int 5]) := Or.inr ⟨.variants [.int32 5], rfl⟩
    have number : Received (.int 7) := Or.inr ⟨.int32 7, rfl⟩
    rcases each with rfl | rfl
    · exact List.forall_mem_cons.mpr ⟨Or.inl rfl,
        List.forall_mem_cons.mpr ⟨array, List.forall_mem_singleton.mpr number⟩⟩
    · exact List.forall_mem_cons.mpr ⟨Or.inl rfl,
        List.forall_mem_cons.mpr ⟨number, List.forall_mem_singleton.mpr array⟩⟩
  · refine ⟨_, ?_, if_pos rfl⟩
    rcases each with rfl | rfl <;> rfl
  · rfl
  · rfl
  · rfl

set_option maxRecDepth 8000 in
theorem array_markup (nodes : List PropTree)
    (each : nodes = [arrayNode, numberNode] ∨ nodes = [numberNode, arrayNode]) :
    GMarkupNormalizes (arrayHost nodes)
      (documentTags (arrayHost nodes) "c".toList (arrayTree nodes)) := by
  intro _ _
  rcases each with rfl | rfl <;> rfl

set_option maxRecDepth 8000 in
/-- The number behind the locked array is lost. -/
theorem number_lost : ∃ channel,
    PrintsDoubles (arrayHost [arrayNode, numberNode]) ∧
    GMarkupNormalizes (arrayHost [arrayNode, numberNode]) (documentTags
      (arrayHost [arrayNode, numberNode]) "c".toList (arrayTree [arrayNode, numberNode])) ∧
    WrittenOver (arrayHost [arrayNode, numberNode]) (arrayDisk [arrayNode, numberNode])
      "c".toList arrayFile (arrayTree [arrayNode, numberNode]) arrayBase ∧
    loadChannel (arrayHost [arrayNode, numberNode]) (arrayDisk [arrayNode, numberNode])
      "c".toList = some (.ok channel) ∧
    (arrayBase.properties.slot ["b".toList]).locked = false ∧
    reread (arrayHost [arrayNode, numberNode])
      ((arrayTree [arrayNode, numberNode]).slot ["b".toList]).value = .int 7 ∧
    (channel.properties.slot ["b".toList]).value = .invalid ∧
    ¬IgnoresLocked (arrayHost [arrayNode, numberNode]) (arrayDisk [arrayNode, numberNode])
      "c".toList (arrayTree [arrayNode, numberNode]) arrayBase := by
  have loaded : ∃ channel, loadChannel (arrayHost [arrayNode, numberNode])
      (arrayDisk [arrayNode, numberNode]) "c".toList = some (.ok channel) ∧
      (channel.properties.slot ["b".toList]).value = .invalid := ⟨_, rfl, rfl⟩
  obtain ⟨channel, loads, lost⟩ := loaded
  have recorded : reread (arrayHost [arrayNode, numberNode])
      ((arrayTree [arrayNode, numberNode]).slot ["b".toList]).value = .int 7 := rfl
  refine ⟨channel, arrayHost_prints _, array_markup _ (Or.inl rfl), array_over _ (Or.inl rfl),
    loads, rfl, recorded, lost, ?_⟩
  intro ignores
  obtain ⟨again, loads', ignored⟩ := ignores
  rw [loads] at loads'
  cases loads'
  have kept := ignored ["b".toList] (by simp)
  rw [lost] at kept
  cases kept

set_option maxRecDepth 8000 in
theorem locked_ignored_last :
    IgnoresLocked (arrayHost [numberNode, arrayNode]) (arrayDisk [numberNode, arrayNode])
      "c".toList (arrayTree [numberNode, arrayNode]) arrayBase := by
  have undisturbed : LocksUndisturbed (arrayHost [numberNode, arrayNode])
      (arrayTree [numberNode, arrayNode]) arrayBase := ⟨array_tidy _ (Or.inr rfl), rfl, nofun⟩
  exact (locked_ignored_iff (arrayHost [numberNode, arrayNode])
    (arrayDisk [numberNode, arrayNode]) "c".toList arrayFile (arrayTree [numberNode, arrayNode])
    arrayBase (arrayHost_prints _) (array_markup _ (Or.inr rfl))
    (array_over _ (Or.inr rfl))).1 undisturbed

end Arrays

end Esconf
