import Esconf.UntouchedSettings
import Esconf.BackendMaps
import Esconf.PrunedTrees

/-! Channels that can be written and read again as they are, and that requests and their
file keep so. -/

namespace Esconf

open NamedTree

section Shrinking

variable {tree : PropTree}

theorem grown_of_inside {after : PropTree} {path : List CString}
    (distinct : Distinct after)
    (inside : ∀ rest, (descend after (path ++ rest)).isSome = true →
      (descend tree (path ++ rest)).isSome = true)
    (outside : ∀ other, ¬path <+: other →
      (descend after other).map NamedTree.data = (descend tree other).map NamedTree.data) :
    Grown [] tree after := by
  refine ⟨fun _ => distinct, ?_⟩
  intro other there
  by_cases below : path <+: other
  · obtain ⟨rest, rfl⟩ := below
    exact Or.inl (inside rest there)
  · rw [← Option.isSome_map , outside other below, Option.isSome_map] at there
    exact Or.inl there

theorem grown_unlink (distinct : Distinct tree) {path : List CString} (full : path ≠ []) :
    Grown [] tree (unlink path tree) := by
  refine grown_of_inside (distinct_unlink path distinct) ?_ fun _ => descend_unlink_outside tree
  intro rest there
  rw [descend_unlink_inside distinct full] at there
  cases there

theorem grown_removeParents (upward : List CString) (distinct : Distinct tree) :
    Grown [] tree (removeParents upward tree) := by
  induction upward generalizing tree with
  | nil => exact Grown.refl tree
  | cons name above ih =>
      rcases removeParents_step name above tree with ⟨key, prop, _, _, step⟩ | stays
      · rw [step]
        have full : above.reverse ++ [name] ≠ [] := by simp
        have cut := grown_unlink distinct full
        exact cut.trans (ih (cut.distinct distinct))
      · rw [stays]
        exact Grown.refl tree

theorem grown_proptreeReset {after : PropTree} {name : CString} (distinct : Distinct tree)
    (done : proptreeReset tree name = some after) : Grown [] tree after := by
  unfold proptreeReset at done
  split at done
  · cases done
  · next looked =>
      have full := nameParts_ne_nil (proptreeLookupNode_some.mp looked).1
      split at done
      · split at done
        · cases done
          exact Grown.update _ _ tree
        · cases done
          have cut := grown_unlink distinct full
          exact cut.trans (grown_removeParents _ (cut.distinct distinct))
      · cases done

theorem grown_resetBelow {name : CString} (valid : propNameIsValid name = true)
    (distinct : Distinct tree) : Grown [] tree (resetBelow tree name) := by
  cases found : descend tree (nameParts name) with
  | none =>
      have idle : resetBelow tree name = tree := by
        change (alterAt nodesCleanUp _ (change nodesDoPropReset _ tree)).getD
          (change nodesDoPropReset _ tree) = _
        rw [change_missing _ found, alterAt_missing found]
        rfl
      rw [idle]
      exact Grown.refl tree
  | some top =>
      refine grown_of_inside (distinct_resetBelow name distinct) ?_
        fun _ => resetAt_outside tree
      intro rest there
      have image := resetAt_inside distinct (nameParts_ne_nil valid) found rest
      rw [show descend (resetBelow tree name) (nameParts name ++ rest) = _ from image] at there
      rw [descend_append, found, Option.bind_some]
      cases deeper : descend top rest with
      | none =>
          rw [deeper] at there
          cases there
      | some node => rfl

end Shrinking

theorem mapDataAll_fixed {g : EsconfProperty → EsconfProperty} {children : List PropTree}
    (each : ∀ child ∈ children, mapData g child = child) : mapDataAll g children = children := by
  induction children with
  | nil => rfl
  | cons child rest ih =>
      rw [mapDataAll, each child List.mem_cons_self,
        ih fun other member => each other (List.mem_cons_of_mem _ member)]

theorem mapData_fixed {g : EsconfProperty → EsconfProperty} {tree : PropTree}
    (distinct : Distinct tree)
    (fixed : ∀ path node, descend tree path = some node → g node.data = node.data) :
    mapData g tree = tree := by
  induction distinct with
  | @node key data children siblings below ih =>
      have here : g data = data := fixed [] _ rfl
      rw [mapData, here, mapDataAll_fixed]
      intro child member
      apply ih child member
      intro path node found
      apply fixed (child.key :: path) node
      rw [descend_cons, children_node, child?_of_mem siblings member]
      exact found

theorem formattedTree_fixed {tree : PropTree} (distinct : Distinct tree)
    (fixed : ∀ path, path ≠ [] → formattedValue (tree.slot path).value = (tree.slot path).value) :
    formattedTree tree = tree := by
  obtain ⟨key, prop, children⟩ := tree
  have below : mapDataAll formattedProperty children = children := by
    apply mapDataAll_fixed
    intro child member
    have siblings : (children.map NamedTree.key).Nodup := distinct.siblings
    apply mapData_fixed (distinct.child member)
    intro path node found
    have whole : descend (.node key prop children) (child.key :: path) = some node := by
      rw [descend_cons, children_node, child?_of_mem siblings member]
      exact found
    have slot : PropTree.slot (.node key prop children) (child.key :: path) = node.data :=
      lookup_of_descend whole
    have same := fixed (child.key :: path) (by simp)
    rw [slot] at same
    rw [formattedProperty, same]
    rfl
  rw [formattedTree, children_node, below]
  rfl

def lasting (value : GValue) : Bool := setting value && restorable value

theorem lasting_invalid : lasting .invalid = true := rfl

theorem lasting_kept (host : Host) {value : GValue} (lasts : lasting value = true) :
    formattable value = true ∧ formattedValue value = value ∧ reread host value = value ∧
      rereads value = true := by
  obtain ⟨set, back⟩ := Bool.and_eq_true_iff.mp lasts
  obtain ⟨known, formatted, same⟩ := (restorable_iff host set).mpr back
  exact ⟨known, formatted, same, setting_rereads set known⟩

/-- A channel without locks over what its system files give, which holds what the maps say
in a tree that is read again as it was written. -/
structure Sound (base : PropTree) (channel : EsconfChannel) (maps : PropMaps) : Prop where
  whole : channel.locked = false
  tidy : Tidy channel.properties
  represents : Represents channel.properties maps
  lasting : ∀ path, path ≠ [] → lasting (channel.properties.slot path).value = true
  policy : ∀ path, path ≠ [] →
    base.slot path = (channel.properties.slot path).withValue .invalid

namespace Sound

variable {base : PropTree} {channel : EsconfChannel} {maps : PropMaps}

theorem mark (sound : Sound base channel maps) (dirty : Bool) :
    Sound base { channel with dirty } maps :=
  ⟨sound.whole, sound.tidy, sound.represents, sound.lasting, sound.policy⟩

theorem transfer {other : EsconfChannel} {maps' : PropMaps} (sound : Sound base channel maps)
    (sound' : Sound base channel maps') (another : Sound base other maps) :
    Sound base other maps' := by
  refine ⟨another.whole, another.tidy, ?_, another.lasting, another.policy⟩
  refine ⟨another.represents.distinct, another.represents.unlocked, ?_, ?_⟩
  · intro name valid
    rw [another.represents.user name valid, ← sound.represents.user name valid]
    exact sound'.represents.user name valid
  · intro name valid
    rw [another.represents.system name valid, ← sound.represents.system name valid]
    exact sound'.represents.system name valid

theorem represented {maps' : PropMaps} (sound : Sound base channel maps)
    (represents : Represents channel.properties maps') : Sound base channel maps' :=
  ⟨sound.whole, sound.tidy, represents, sound.lasting, sound.policy⟩

theorem effective (sound : Sound base channel maps) {property : CString}
    (valid : propNameIsValid property = true) :
    effectiveAt channel property = maps.effective property :=
  (effectiveAt_slot valid).trans (sound.represents.effective valid)

theorem changed (sound : Sound base channel maps) {properties : PropTree} {maps' : PropMaps}
    {paths : List (List CString)} (grown : Grown paths channel.properties properties)
    (named : ∀ parts ∈ paths, ∀ name ∈ parts, name ≠ [] ∧ '/' ∉ name ∧ CleanText name)
    (short : ∀ parts ∈ paths, (partsName parts).length < maxPropPath)
    (represents : Represents properties maps')
    (slots : ∀ path, ∃ value, Esconf.lasting value = true ∧
      (properties.slot path = (channel.properties.slot path).withValue value ∨
        properties.slot path = channel.properties.slot path)) :
    Sound base { channel with properties } maps' := by
  refine ⟨sound.whole, sound.tidy.grown grown named short, represents, ?_, ?_⟩
  · intro path full
    obtain ⟨value, lasts, written | same⟩ := slots path
    · dsimp only
      rw [written]
      exact lasts
    · dsimp only
      rw [same]
      exact sound.lasting path full
  · intro path full
    rw [sound.policy path full]
    obtain ⟨value, _, written | same⟩ := slots path
    · dsimp only
      rw [written]
      rfl
    · dsimp only
      rw [same]

theorem formatted (sound : Sound base channel maps) (host : Host) :
    formattedTree channel.properties = channel.properties :=
  formattedTree_fixed sound.tidy.distinct fun path full =>
    (lasting_kept host (sound.lasting path full)).2.1

/-- Reading the text over what the system files give brings a sound channel back. -/
theorem reread {host : Host} (prints : PrintsDoubles host) (sound : Sound base channel maps)
    {channelName filename text : CString} {disk : Disk}
    (valid : esconfChannelIsValid channelName = none)
    (markup : GMarkupNormalizes host (documentTags host channelName channel.properties))
    (done : flushText host channelName channel.properties = .ok text)
    (stored : disk filename = some text) {below : EsconfChannel} (same : below.properties = base)
    (unlocked : Unlocked below) (tidy : Tidy base) :
    ∃ again, mergeFile host disk filename false below = some (true, again) ∧
      Sound base again maps := by
  have readable : ∀ path, path ≠ [] → rereads (channel.properties.slot path).value = true :=
    fun path full => (lasting_kept host (sound.lasting path full)).2.2.2
  obtain ⟨layer, clean⟩ := sound.tidy.written_layer prints readable valid markup done stored
  obtain ⟨again, merged, unlocked', slots⟩ := layer.merged unlocked
  rw [← same] at tidy
  have tidy' := layer_tidy layer clean unlocked tidy merged
  have restored : ∀ path, path ≠ [] →
      again.properties.slot path = channel.properties.slot path := by
    intro path full
    have given := document_gives prints sound.tidy readable channelName full
    rw [(lasting_kept host (sound.lasting path full)).2.2.1] at given
    rw [slots, same, sound.policy path full]
    cases outcome : (writtenDocument host channelName channel.properties).gives host path with
    | none =>
        rw [outcome] at given
        change GValue.invalid = _ at given
        rw [Option.map_none, Option.getD_none, given]
        rfl
    | some value =>
        rw [outcome] at given
        change value = _ at given
        rw [Option.map_some, Option.getD_some, given]
        rfl
  refine ⟨again, merged, unlocked'.whole, tidy', ?_, ?_, ?_⟩
  · refine ⟨tidy'.distinct, unlocked'.each, ?_, ?_⟩
    · intro name named
      rw [restored _ (nameParts_ne_nil named)]
      exact sound.represents.user name named
    · intro name named
      rw [restored _ (nameParts_ne_nil named)]
      exact sound.represents.system name named
  · intro path full
    rw [restored path full]
    exact sound.lasting path full
  · intro path full
    rw [restored path full]
    exact sound.policy path full

end Sound

end Esconf
