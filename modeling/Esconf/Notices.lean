import Esconf.Backend
import Esconf.PropTreeNames
import Esconf.PropTreeReset

/-! The change notices of sets and resets: which names the backend reports, and
when these are the names of the properties whose user values were touched. -/

namespace Esconf

open NamedTree

/-- The name `esconf_proptree_build_propname` gives the node of a path: it stops
at the first name of one character, which it takes for the root. -/
def builtPath (path : List CString) : List CString :=
  (path.reverse.takeWhile fun name => decide (2 ≤ name.length)).reverse

theorem builtPath_suffix (path : List CString) : ∃ cut, path = cut ++ builtPath path := by
  obtain ⟨rest, whole⟩ := List.takeWhile_prefix (fun name : CString => decide (2 ≤ name.length))
    (l := path.reverse)
  refine ⟨rest.reverse, ?_⟩
  rw [builtPath, ← List.reverse_append, whole, List.reverse_reverse]

theorem builtPath_long {path : List CString} {name : CString} (member : name ∈ builtPath path) :
    2 ≤ name.length := by
  have kept := List.mem_takeWhile_imp (List.mem_reverse.mp member)
  exact of_decide_eq_true kept

theorem builtPath_of_long {path : List CString} (long : ∀ name ∈ path, 2 ≤ name.length) :
    builtPath path = path := by
  rw [builtPath, List.takeWhile_eq_self_iff.mpr, List.reverse_reverse]
  intro name member
  exact decide_eq_true (long name (List.mem_reverse.mp member))

theorem foldl_gStrlcat {more : List CString} : ∀ front : List CString,
    (partsName (front ++ more)).length < maxPropPath →
    more.foldl (fun buf name => gStrlcat (gStrlcat buf "/".toList maxPropPath) name maxPropPath)
      (partsName front) = partsName (front ++ more) := by
  induction more with
  | nil =>
      intro front _
      rw [List.foldl_nil, List.append_nil]
  | cons name rest ih =>
      intro front short
      have split : front ++ name :: rest = (front ++ [name]) ++ rest := by
        rw [List.append_assoc, List.singleton_append]
      have first : (partsName (front ++ [name])).length < maxPropPath := by
        rw [split, partsName, SeparatedWords.join_append, List.length_append] at short
        exact Nat.lt_of_le_of_lt (Nat.le_add_right _ _) short
      rw [split] at short ⊢
      rw [List.foldl_cons, gStrlcat_snoc first]
      exact ih (front ++ [name]) short

theorem proptreeBuildPropname_eq {path : List CString}
    (short : (partsName path).length < maxPropPath) :
    proptreeBuildPropname (path.reverse ++ ["/".toList]) = partsName (builtPath path) := by
  obtain ⟨cut, whole⟩ := builtPath_suffix path
  have stops : (path.reverse ++ ["/".toList]).takeWhile (fun name => decide (2 ≤ name.length)) =
      path.reverse.takeWhile fun name => decide (2 ≤ name.length) := by
    rw [List.takeWhile_append]
    split
    · next all =>
        have longer : path.reverse.takeWhile (fun name => decide (2 ≤ name.length)) = path.reverse :=
          (List.takeWhile_prefix _).eq_of_length all
        rw [longer]
        exact List.append_nil _
    · rfl
  have fits : (partsName ([] ++ builtPath path)).length < maxPropPath := by
    rw [whole, partsName, SeparatedWords.join_append, List.length_append] at short
    exact Nat.lt_of_le_of_lt (Nat.le_add_left _ _) short
  rw [proptreeBuildPropname, stops]
  exact foldl_gStrlcat [] fits

def noticeName (visited : List CString × EsconfProperty) : Option CString :=
  if visited.2.value.isSet then some (proptreeBuildPropname (visited.1.reverse ++ ["/".toList]))
  else none

theorem resetNoticesAll_walk {children : List PropTree} {above : List CString}
    {path : List CString}
    (walks : ∀ child ∈ children, resetNotices above child =
      (postorder (path ++ [child.key]) child).filterMap noticeName) :
    resetNoticesAll above children = (postorderAll path children).filterMap noticeName := by
  induction children with
  | nil => rw [resetNoticesAll, postorderAll, List.filterMap_nil]
  | cons child rest ih =>
      have later := ih fun other member => walks other (List.mem_cons_of_mem _ member)
      rw [resetNoticesAll, walks child List.mem_cons_self, later, postorderAll,
        List.filterMap_append]

theorem resetNotices_walk (node : PropTree) : ∀ above path : List CString,
    node.key :: above = path.reverse ++ ["/".toList] →
    resetNotices above node = (postorder path node).filterMap noticeName := by
  induction node using byChildren with
  | step name prop children ih =>
      intro above path upward
      rw [key_node] at upward
      have below : resetNoticesAll (name :: above) children =
          (postorderAll path children).filterMap noticeName := by
        apply resetNoticesAll_walk
        intro child member
        apply ih child member
        rw [upward, List.reverse_append]
        rfl
      rw [resetNotices, below, postorder, List.filterMap_append]
      congr 1
      rw [upward, List.filterMap_cons, List.filterMap_nil, noticeName]
      split <;> rfl

theorem propChanged_notices {xbpx : EsconfBackendPerchannelXml}
    (registered : xbpx.propChangedFunc = true) (channelName property : CString) :
    (xbpx.propChanged channelName property).notices = xbpx.notices ++ [(channelName, property)] := by
  rw [EsconfBackendPerchannelXml.propChanged, if_pos registered]

theorem propsChanged_notices {xbpx : EsconfBackendPerchannelXml}
    (registered : xbpx.propChangedFunc = true) (channelName : CString)
    (properties : List CString) :
    (propsChanged xbpx channelName properties).notices =
      xbpx.notices ++ properties.map (Prod.mk channelName) := by
  induction properties generalizing xbpx with
  | nil => exact (List.append_nil _).symm
  | cons property rest ih =>
      have still : (xbpx.propChanged channelName property).propChangedFunc = true := by
        rw [EsconfBackendPerchannelXml.propChanged, if_pos registered]
        exact registered
      calc
        (propsChanged xbpx channelName (property :: rest)).notices =
            (propsChanged (xbpx.propChanged channelName property) channelName rest).notices := rfl
        _ = (xbpx.propChanged channelName property).notices ++ rest.map (Prod.mk channelName) :=
          ih still
        _ = xbpx.notices ++ (property :: rest).map (Prod.mk channelName) := by
          rw [propChanged_notices registered, List.append_assoc]
          rfl

inductive Modification where
  | set (property : CString) (value : GValue)
  | reset (property : CString) (recursive : Bool)

namespace Modification

def perform (host : Host) (xbpx : EsconfBackendPerchannelXml) (channelName : CString) :
    Modification → Answer Unit
  | set property value => esconfBackendSet host xbpx channelName property value
  | reset property recursive => esconfBackendReset host xbpx channelName property recursive

def Touches (tree : PropTree) : Modification → List CString → Prop
  | set property value, path => path = nameParts property ∧
      ∀ prop, proptreeLookup tree property = some prop →
        GValue.isEqual prop.effective value = false
  | reset property false, path => path = nameParts property ∧ (tree.slot path).value.isSet = true
  | reset property true, path => (tree.slot path).value.isSet = true ∧
      (2 ≤ property.length → nameParts property <+: path)

def written : Modification → GValue
  | set _ value => value
  | reset _ _ => .invalid

/-- Where a call rebuilds names, no component of a touched path is a single character. -/
def Rebuildable (tree : PropTree) (modification : Modification) : Prop :=
  match modification with
  | reset _ true => ∀ path, modification.Touches tree path → ∀ name ∈ path, 2 ≤ name.length
  | _ => True

/-- The property a set may add fits into the path buffers. -/
def Fits : Modification → Prop
  | set property _ => property.length < maxPropPath
  | reset _ _ => True

end Modification

/-- The names reported are the full names of the touched properties. -/
def NamesTouched (tree : PropTree) (modification : Modification) (added : List CString) : Prop :=
  ∀ property, property ∈ added ↔
    propNameIsValid property = true ∧ modification.Touches tree (nameParts property)

/-- The user values of a channel are the old ones but for the touched ones. -/
def TouchesOnly (tree after : PropTree) (modification : Modification) : Prop :=
  ∀ path, (modification.Touches tree path → (after.slot path).value = modification.written) ∧
    (¬modification.Touches tree path → (after.slot path).value = (tree.slot path).value)

/-- The names of a traversal are right exactly if it rebuilds none that has a
component of one character. -/
theorem namesTouched_traversal {tree top : PropTree} (named : WellNamed tree)
    {path : List CString} (found : descend tree path = some top) {modification : Modification}
    (touches : ∀ other, modification.Touches tree other ↔
      path <+: other ∧ (tree.slot other).value.isSet = true) :
    NamesTouched tree modification ((postorder path top).filterMap noticeName) ↔
      ∀ other, modification.Touches tree other → ∀ name ∈ other, 2 ≤ name.length := by
  -- The traversal reports the touched paths by the names it rebuilds.
  have reported : ∀ property, property ∈ (postorder path top).filterMap noticeName ↔
      ∃ other, modification.Touches tree other ∧ partsName (builtPath other) = property := by
    intro property
    rw [List.mem_filterMap]
    constructor
    · intro notice
      obtain ⟨visited, inside, built⟩ := notice
      obtain ⟨more, node, same, below, data⟩ :=
        (mem_preorder (named.distinct.descend found)).mp (mem_postorder.mp inside)
      have here : descend tree visited.1 = some node := by
        rw [same, descend_append, found]
        exact below
      unfold noticeName at built
      split at built
      · next set =>
          rw [proptreeBuildPropname_eq (named.short _ node here)] at built
          refine ⟨visited.1, (touches _).mpr ⟨?_, ?_⟩, Option.some.inj built⟩
          · rw [same]
            exact List.prefix_append path more
          · have slot : tree.slot visited.1 = node.data := lookup_of_descend here
            rw [slot, data]
            exact set
      · cases built
    · intro touched
      obtain ⟨other, touch, built⟩ := touched
      obtain ⟨above, set⟩ := (touches other).mp touch
      obtain ⟨more, same⟩ := above
      cases here : descend tree other with
      | none =>
          rw [PropTree.slot, lookup_of_missing here] at set
          cases set
      | some node =>
          have slot : tree.slot other = node.data := lookup_of_descend here
          refine ⟨(other, node.data), ?_, ?_⟩
          · apply mem_postorder.mpr
            apply (mem_preorder (named.distinct.descend found)).mpr
            refine ⟨more, node, same.symm, ?_, rfl⟩
            rw [← same, descend_append, found] at here
            exact here
          · rw [slot] at set
            rw [noticeName, if_pos set, proptreeBuildPropname_eq (named.short _ node here), built]
  have there : ∀ other, modification.Touches tree other → ∃ node, descend tree other = some node ∧
      other ≠ [] := by
    intro other touch
    have set := ((touches other).mp touch).2
    cases here : descend tree other with
    | none =>
        rw [PropTree.slot, lookup_of_missing here] at set
        cases set
    | some node =>
        refine ⟨node, rfl, ?_⟩
        intro top
        have slot : tree.slot other = node.data := lookup_of_descend here
        rw [top, descend_nil, Option.some.injEq] at here
        rw [slot, ← here, named.blank] at set
        cases set
  constructor
  -- A rebuilt name is a suffix of the path, so that the right one is the whole path.
  · intro names other touch name member
    obtain ⟨node, here, full⟩ := there other touch
    have valid := named.valid other node full here
    have plain := named.plain other node here
    have parts := nameParts_partsName plain valid
    have notice := (names (partsName other)).mpr ⟨valid, by rw [parts]; exact touch⟩
    obtain ⟨source, touched, built⟩ := (reported _).mp notice
    obtain ⟨node', here', _⟩ := there source touched
    have plain' : SeparatedWords.Plain '/' (builtPath source) := by
      obtain ⟨cut, whole⟩ := builtPath_suffix source
      intro piece inside
      apply named.plain source node' here' piece
      rw [whole]
      exact List.mem_append_right _ inside
    have same : builtPath source = other := SeparatedWords.join_inj plain' plain built
    rw [← same] at member
    exact builtPath_long member
  · intro long property
    rw [reported]
    constructor
    · intro notice
      obtain ⟨other, touch, built⟩ := notice
      obtain ⟨node, here, full⟩ := there other touch
      have valid := named.valid other node full here
      rw [builtPath_of_long (long other touch)] at built
      rw [← built, nameParts_partsName (named.plain other node here) valid]
      exact ⟨valid, touch⟩
    · intro touched
      refine ⟨nameParts property, touched.2, ?_⟩
      rw [builtPath_of_long (long _ touched.2), partsName_nameParts touched.1]

theorem unlink_leaf_value {tree : PropTree} (distinct : Distinct tree) {path : List CString}
    (full : path ≠ []) {key : CString} {prop : EsconfProperty}
    (found : descend tree path = some (.node key prop [])) (other : List CString) :
    (PropTree.slot (unlink path tree) other).value =
      if other = path then .invalid else (tree.slot other).value := by
  by_cases inside : path <+: other
  · obtain ⟨rest, rfl⟩ := inside
    rw [PropTree.slot, lookup_of_missing (descend_unlink_inside distinct full rest)]
    cases rest with
    | nil =>
        rw [List.append_nil, if_pos rfl]
        rfl
    | cons step rest =>
        have gone : descend tree (path ++ step :: rest) = none := by
          rw [descend_append, found]
          rfl
        rw [if_neg (by simp), PropTree.slot, lookup_of_missing gone]
  · rw [PropTree.slot, lookup_unlink_outside .blank tree inside, if_neg]
    · rfl
    · intro same
      exact inside (by rw [same])

theorem removeParents_value (upward : List CString) {tree : PropTree} (distinct : Distinct tree)
    (path : List CString) :
    ((removeParents upward tree).slot path).value = (tree.slot path).value := by
  induction upward generalizing tree with
  | nil => rfl
  | cons name above ih =>
      rcases removeParents_step name above tree with ⟨key, prop, found, empty, step⟩ | stays
      · have full : above.reverse ++ [name] ≠ [] := by simp
        have unset : prop.value = .invalid := by
          simp only [EsconfProperty.valueless, Bool.and_eq_true, Bool.not_eq_true',
            GValue.isSet_eq_false] at empty
          exact empty.1
        have here : tree.slot (above.reverse ++ [name]) = prop := lookup_of_descend found
        rw [step, ih (distinct_unlink _ distinct), unlink_leaf_value distinct full found]
        split
        · next same => rw [same, here, unset]
        · rfl
      · rw [stays]

theorem proptreeReset_value {tree after : PropTree} {name : CString} (distinct : Distinct tree)
    (done : proptreeReset tree name = some after) :
    propNameIsValid name = true ∧ (tree.slot (nameParts name)).value.isSet = true ∧
      ∀ path, (after.slot path).value =
        if path = nameParts name then .invalid else (tree.slot path).value := by
  unfold proptreeReset at done
  split at done
  · cases done
  · next key prop children looked =>
      obtain ⟨valid, found⟩ := proptreeLookupNode_some.mp looked
      have here : tree.slot (nameParts name) = prop := lookup_of_descend found
      split at done
      · next set =>
          refine ⟨valid, by rw [here]; exact set, ?_⟩
          intro path
          split at done
          · cases done
            rw [PropTree.slot, lookup_update .blank _ found path]
            split
            · rfl
            · rfl
          · next leaf =>
              cases done
              have childless : children = [] := by
                cases children with
                | nil => rfl
                | cons child rest => exact absurd rfl leaf
              rw [childless] at found
              rw [removeParents_value _ (distinct_unlink _ distinct),
                unlink_leaf_value distinct (nameParts_ne_nil valid) found]
      · cases done

theorem touchesOnly_set {tree : PropTree} {property : CString} {value : GValue} {after : PropTree}
    (stored : ∀ prop, proptreeLookup tree property = some prop →
      GValue.isEqual prop.effective value = false)
    (values : ∀ path, (after.slot path).value =
      if path = nameParts property then value else (tree.slot path).value) :
    TouchesOnly tree after (.set property value) := by
  intro path
  rw [values path]
  constructor
  · intro touched
    rw [if_pos touched.1]
    rfl
  · intro spared
    rw [if_neg]
    intro same
    exact spared ⟨same, stored⟩

theorem touchesOnly_reset {tree after : PropTree} {property : CString}
    (values : ∀ path, (after.slot path).value =
      if path = nameParts property then .invalid else (tree.slot path).value) :
    TouchesOnly tree after (.reset property false) := by
  intro path
  rw [values path]
  constructor
  · intro touched
    rw [if_pos touched.1]
    rfl
  · intro spared
    split
    · next same =>
        have unset : (tree.slot path).value.isSet ≠ true := fun set => spared ⟨same, set⟩
        exact (GValue.isSet_eq_false.mp (Bool.eq_false_iff.mpr unset)).symm
    · rfl

theorem touchesOnly_resetBelow {tree : PropTree} (distinct : Distinct tree) {property : CString}
    (valid : propNameIsValid property = true) (longer : 2 ≤ property.length) :
    TouchesOnly tree (resetBelow tree property) (.reset property true) := by
  intro path
  rw [resetBelow_slot valid distinct path]
  constructor
  · intro touched
    rw [if_pos (touched.2 longer)]
    rfl
  · intro spared
    split
    · next below =>
        have unset : (tree.slot path).value.isSet ≠ true := fun set => spared ⟨set, fun _ => below⟩
        exact (GValue.isSet_eq_false.mp (Bool.eq_false_iff.mpr unset)).symm
    · rfl

structure Reported (xbpx after : EsconfBackendPerchannelXml) (channelName : CString)
    (tree : PropTree) (modification : Modification) : Prop where
  notices : ∃ added, after.notices = xbpx.notices ++ added.map (Prod.mk channelName) ∧
    (NamesTouched tree modification added ↔ modification.Rebuildable tree)
  values : ∀ channel, after.channels.lookup channelName = some channel →
    TouchesOnly tree channel.properties modification

section

variable {xbpx after : EsconfBackendPerchannelXml} {channelName : CString}
  {channel : EsconfChannel}

theorem namesTouched_single {tree : PropTree} {modification : Modification} {property : CString}
    (valid : propNameIsValid property = true)
    (touches : ∀ path, modification.Touches tree path ↔ path = nameParts property) :
    NamesTouched tree modification [property] := by
  intro other
  rw [List.mem_singleton]
  constructor
  · intro same
    rw [same]
    exact ⟨valid, (touches _).mpr rfl⟩
  · intro touched
    exact nameParts_inj touched.1 valid ((touches _).mp touched.2)

theorem stored_reported (registered : xbpx.propChangedFunc = true) {property : CString}
    (valid : propNameIsValid property = true) {value : GValue} {properties : PropTree}
    (differs : ∀ prop, proptreeLookup channel.properties property = some prop →
      GValue.isEqual prop.effective value = false)
    (values : ∀ path, (properties.slot path).value =
      if path = nameParts property then value else (channel.properties.slot path).value) :
    Reported xbpx ((xbpx.propChanged channelName property).scheduleSave channelName
      { channel with properties }) channelName channel.properties (.set property value) := by
  have always : (Modification.set property value).Rebuildable channel.properties := trivial
  refine ⟨⟨[property], propChanged_notices registered channelName property,
    iff_of_true (namesTouched_single valid fun path => ?_) always⟩, ?_⟩
  · exact ⟨fun touched => touched.1, fun same => ⟨same, differs⟩⟩
  · intro channel' there
    rw [EsconfBackendPerchannelXml.scheduleSave_channels, AList.lookup_insert] at there
    cases there
    exact touchesOnly_set differs values

theorem setIn_reported (registered : xbpx.propChangedFunc = true)
    (loaded : xbpx.channels.lookup channelName = some channel) {property : CString}
    (valid : propNameIsValid property = true) (short : property.length < maxPropPath)
    {value : GValue}
    (done : setIn xbpx channelName channel channelName property value = (.ok (), after)) :
    Reported xbpx after channelName channel.properties (.set property value) := by
  have always : (Modification.set property value).Rebuildable channel.properties := trivial
  unfold setIn at done
  cases looked : proptreeLookup channel.properties property with
  | some prop =>
      simp only [looked] at done
      by_cases locked : prop.locked = true
      · rw [if_pos locked] at done
        cases done
      rw [if_neg locked] at done
      by_cases equal : GValue.isEqual prop.effective value = true
      · rw [if_pos equal] at done
        cases done
        have idle : ∀ path, ¬(Modification.set property value).Touches channel.properties path := by
          intro path touched
          rw [touched.2 prop looked] at equal
          cases equal
        refine ⟨⟨[], (List.append_nil _).symm, iff_of_true ?_ always⟩, ?_⟩
        · intro other
          constructor
          · intro member
            cases member
          · intro touched
            exact absurd touched.2 (idle _)
        · intro channel' found
          rw [loaded] at found
          cases found
          intro path
          exact ⟨fun touched => absurd touched (idle path), fun _ => rfl⟩
      · rw [if_neg equal] at done
        cases done
        obtain ⟨_, node, found, _⟩ := proptreeLookup_some.mp looked
        refine stored_reported registered valid ?_ ?_
        · intro other same
          rw [looked] at same
          cases same
          exact Bool.eq_false_iff.mpr equal
        · intro path
          rw [PropTree.slot, lookup_update .blank _ found path]
          split <;> rfl
  | none =>
      simp only [looked] at done
      cases done
      obtain ⟨grown, added, _, slots, _⟩ :=
        proptreeAddProperty_spec value false valid short looked
      refine stored_reported registered valid ?_ ?_
      · intro other same
        rw [looked] at same
        cases same
      · intro path
        rw [added, Option.getD_some, slots path]
        split <;> rfl

theorem reset_reported (host : Host) (registered : xbpx.propChangedFunc = true)
    (loaded : xbpx.channels.lookup channelName = some channel)
    (named : WellNamed channel.properties) {property : CString} {recursive : Bool}
    (done : perchannelXmlReset host xbpx channelName property recursive =
      some (.ok (), after)) :
    Reported xbpx after channelName channel.properties (.reset property recursive) := by
  rw [perchannelXmlReset, onChannel_loaded host loaded, Option.some.injEq] at done
  cases recursive with
  | false =>
      rw [Bool.not_false, if_pos rfl] at done
      have always : (Modification.reset property false).Rebuildable channel.properties := trivial
      cases erased : proptreeReset channel.properties property with
      | none =>
          simp only [erased] at done
          cases done
      | some properties =>
          simp only [erased] at done
          cases done
          obtain ⟨valid, set, values⟩ := proptreeReset_value named.distinct erased
          refine ⟨⟨[property], propChanged_notices registered channelName property,
            iff_of_true (namesTouched_single valid fun path => ?_) always⟩, ?_⟩
          · exact ⟨fun touched => touched.1, fun same => ⟨same, by rw [same]; exact set⟩⟩
          · intro channel' there
            rw [EsconfBackendPerchannelXml.scheduleSave_channels, AList.lookup_insert] at there
            cases there
            exact touchesOnly_reset values
  | true =>
      rw [Bool.not_true, if_neg Bool.false_ne_true] at done
      by_cases longer : 2 ≤ property.length
      · rw [if_pos longer] at done
        cases looked : proptreeLookupNode channel.properties property with
        | none =>
            simp only [looked] at done
            cases done
        | some top =>
            simp only [looked] at done
            cases done
            obtain ⟨valid, found⟩ := proptreeLookupNode_some.mp looked
            have upward : top.key :: ((nameParts property).dropLast.reverse ++
                [channel.properties.key]) = (nameParts property).reverse ++ ["/".toList] := by
              rcases List.eq_nil_or_concat (nameParts property) with empty | ⟨front, last, parts⟩
              · exact absurd empty (nameParts_ne_nil valid)
              · rw [List.concat_eq_append] at parts
                rw [parts] at found ⊢
                rw [descend_key found, named.root, List.dropLast_concat, List.reverse_append]
                rfl
            have touches : ∀ other,
                (Modification.reset property true).Touches channel.properties other ↔
                  nameParts property <+: other ∧
                    (channel.properties.slot other).value.isSet = true :=
              fun other => ⟨fun touched => ⟨touched.2 longer, touched.1⟩,
                fun below => ⟨below.2, fun _ => below.1⟩⟩
            refine ⟨⟨_, propsChanged_notices registered channelName _, ?_⟩, ?_⟩
            · rw [resetNotices_walk top _ _ upward]
              exact namesTouched_traversal named found touches
            · intro channel' there
              rw [EsconfBackendPerchannelXml.scheduleSave_channels, AList.lookup_insert] at there
              cases there
              exact touchesOnly_resetBelow named.distinct valid longer
      · rw [if_neg longer, doResetChannel] at done
        have touches : ∀ other,
            (Modification.reset property true).Touches channel.properties other ↔
              [] <+: other ∧ (channel.properties.slot other).value.isSet = true :=
          fun other => ⟨fun touched => ⟨List.nil_prefix, touched.1⟩,
            fun below => ⟨below.2, fun long => absurd long longer⟩⟩
        have upward : channel.properties.key :: [] = ([] : List CString).reverse ++ ["/".toList] := by
          rw [named.root]
          rfl
        dsimp only at done
        split at done
        · cases done
        · cases done
          refine ⟨⟨_, propsChanged_notices registered channelName _, ?_⟩, ?_⟩
          · rw [resetNotices_walk channel.properties _ _ upward]
            exact namesTouched_traversal named (descend_nil _) touches
          · intro channel' there
            rw [AList.lookup_erase] at there
            cases there

/-- A successful call reports the full names of the properties whose user values
it stores or erases, exactly if it has to rebuild no name with a component of
one character; and those are the user values it changes. -/
theorem notices_name_touched (host : Host) (xbpx after : EsconfBackendPerchannelXml)
    (channelName : CString) (channel : EsconfChannel)
    (loaded : xbpx.channels.lookup channelName = some channel)
    (named : WellNamed channel.properties) (registered : xbpx.propChangedFunc = true)
    (modification : Modification) (fits : modification.Fits)
    (done : modification.perform host xbpx channelName = some (.ok (), after)) :
    (∃ added, after.notices = xbpx.notices ++ added.map (Prod.mk channelName) ∧
      (NamesTouched channel.properties modification added ↔
        modification.Rebuildable channel.properties)) ∧
    ∀ channel', after.channels.lookup channelName = some channel' →
      TouchesOnly channel.properties channel'.properties modification := by
  have reported : Reported xbpx after channelName channel.properties modification := by
    cases modification with
    | set property value =>
        rcases guarded_cases done with ⟨error, refused⟩ | ⟨clear, inner, performed, same⟩
        · cases refused
        · obtain ⟨result, ended⟩ := inner
          cases result with
          | error error => cases same
          | ok done' =>
              cases same
              rw [perchannelXmlSet, findChannel_loaded host loaded, Option.some.injEq] at performed
              have accepted := List.findSome?_eq_none_iff.mp clear (esconfPropertyIsValid property)
                (List.mem_cons_of_mem _ List.mem_cons_self)
              exact setIn_reported registered loaded (propNameIsValid_of_property accepted) fits
                performed
    | reset property recursive =>
        rcases guarded_cases done with ⟨error, refused⟩ | ⟨clear, inner, performed, same⟩
        · cases refused
        · obtain ⟨result, ended⟩ := inner
          cases result with
          | error error => cases same
          | ok done' =>
              cases same
              exact reset_reported host registered loaded named performed
  exact ⟨reported.notices, reported.values⟩

end

theorem rebuildable_of_walk {tree : PropTree} (distinct : Distinct tree) (property : CString)
    (long : ∀ visited ∈ preorder [] tree, visited.2.value.isSet = true →
      ∀ name ∈ visited.1, 2 ≤ name.length) :
    (Modification.reset property true).Rebuildable tree := by
  intro path touched name member
  cases here : descend tree path with
  | none =>
      have set := touched.1
      rw [PropTree.slot, lookup_of_missing here] at set
      cases set
  | some node =>
      have slot : tree.slot path = node.data := lookup_of_descend here
      have set := touched.1
      rw [slot] at set
      exact long (path, node.data) ((mem_preorder distinct).mpr ⟨path, node, rfl, here, rfl⟩) set
        name member

def onlyProperty (name : CString) : PropTree :=
  .node "/".toList .blank [.node name ⟨.int 1, .invalid, false⟩ []]

theorem wellNamed_onlyProperty {name : CString}
    (visited : ∀ visited ∈ preorder [] (onlyProperty name),
      (∀ piece ∈ visited.1, piece ≠ [] ∧ '/' ∉ piece) ∧
        (partsName visited.1).length < maxPropPath) : WellNamed (onlyProperty name) := by
  apply wellNamed_of_names rfl rfl
  · refine .node (List.nodup_singleton _) ?_
    intro child member
    rw [List.mem_singleton.mp member]
    exact .node List.nodup_nil nofun
  · exact visited

/-- The node of "/a" is taken for the root: its reset is reported under an empty name. -/
theorem reset_notice_nameless :
    WellNamed (onlyProperty "a".toList) ∧ ∃ after,
      (Modification.reset "/a".toList true).perform (.bare [])
        (.idle (.singleton "c".toList ⟨onlyProperty "a".toList, false, false⟩)) "c".toList =
          some (.ok (), after) ∧
      after.notices = [("c".toList, [])] ∧
      ¬∃ added, after.notices = [] ++ added.map (Prod.mk "c".toList) ∧
        NamesTouched (onlyProperty "a".toList) (.reset "/a".toList true) added := by
  refine ⟨wellNamed_onlyProperty (by decide), _, rfl, rfl, ?_⟩
  intro right
  obtain ⟨added, notices, names⟩ := right
  have touched := (names "/a".toList).mpr ⟨by decide, rfl, fun _ => List.prefix_refl _⟩
  have reported : ("c".toList, "/a".toList) ∈ [("c".toList, ([] : CString))] := by
    change _ = [] ++ added.map (Prod.mk "c".toList) at notices
    have whole : [("c".toList, ([] : CString))] = added.map (Prod.mk "c".toList) := notices
    rw [whole]
    exact List.mem_map_of_mem touched
  exact absurd reported (by decide)

theorem notices_name_touched_panel :
    ∃ after, (Modification.reset "/panel".toList true).perform (.bare [])
        (.idle (.singleton "c".toList ⟨onlyProperty "panel".toList, false, false⟩)) "c".toList =
          some (.ok (), after) ∧
      ∃ added, after.notices = [] ++ added.map (Prod.mk "c".toList) ∧
        NamesTouched (onlyProperty "panel".toList) (.reset "/panel".toList true) added := by
  refine ⟨_, rfl, ?_⟩
  obtain ⟨⟨added, notices, names⟩, _⟩ := notices_name_touched (.bare [])
    (.idle (.singleton "c".toList ⟨onlyProperty "panel".toList, false, false⟩)) _ "c".toList
    ⟨onlyProperty "panel".toList, false, false⟩ rfl (wellNamed_onlyProperty (by decide)) rfl
    (.reset "/panel".toList true) trivial rfl
  have named : WellNamed (onlyProperty "panel".toList) := wellNamed_onlyProperty (by decide)
  exact ⟨added, notices, names.mpr (rebuildable_of_walk named.distinct "/panel".toList (by decide))⟩

end Esconf
