import Esconf.Notices
import Esconf.PrunedTrees
import Esconf.Library.LiveTrees

/-! Property trees without dangling nodes, and the changes that leave none. -/

namespace Esconf

open NamedTree

/-- Every leaf but the root has a user value, a system value or a lock. -/
def NoDangling (proptree : PropTree) : Prop := LiveBelow EsconfProperty.dangling proptree

instance (proptree : PropTree) : Decidable (NoDangling proptree) :=
  inferInstanceAs (Decidable (LiveBelow _ proptree))

theorem dangling_withValue {value : GValue} (set : value.isSet = true) (prop : EsconfProperty) :
    (prop.withValue value).dangling = false := by
  simp [EsconfProperty.dangling, EsconfProperty.withValue, set]

theorem noDangling_update {proptree node : PropTree} {path : List CString} {value : GValue}
    (fine : NoDangling proptree) (found : descend proptree path = some node)
    (own : node.children ≠ [] ∨ (node.data.withValue value).dangling = false) :
    NoDangling (update (·.withValue value) path proptree) := by
  have below := LiveBut.live_inside fine found
  have moved := descend_update_self (·.withValue value) found
  have done := alterAt_change (withData (·.withValue value)) path proptree
  obtain ⟨key, prop, children⟩ := node
  obtain ⟨changed, done', loose⟩ :=
    (LiveBut.of_live fine found).rewrite (withData_keepsKey _) found rfl below
  have same : changed = update (·.withValue value) path proptree :=
    Option.some.inj (done'.symm.trans done)
  rw [same] at loose
  exact loose.settle moved (Or.inr own)

theorem addPropertyWithin_loose {fuel : Nat} {proptree grown : PropTree} {parts : List CString}
    {prop : EsconfProperty} (enough : parts.length ≤ fuel)
    (plain : SeparatedWords.Plain '/' parts) (valid : propNameIsValid (partsName parts) = true)
    (short : (partsName parts.dropLast).length + 1 < maxPropPath)
    (fresh : descend proptree parts = none) (fine : NoDangling proptree)
    (done : addPropertyWithin fuel proptree (partsName parts) prop = some grown) :
    LiveBut EsconfProperty.dangling parts grown := by
  induction fuel generalizing parts prop grown with
  | zero => cases done
  | succ fuel ih =>
      rcases List.eq_nil_or_concat parts with rfl | ⟨front, last, rfl⟩
      · cases fresh
      rw [List.concat_eq_append] at *
      rw [List.dropLast_concat] at short
      rw [addPropertyWithin_snoc fuel proptree prop plain valid short] at done
      cases done
      cases found : descend proptree front with
      | some parent =>
          rw [Option.isSome_some, if_pos rfl]
          apply LiveBut.graft (LiveBut.of_live fine found) found
          rw [descend_append, found, Option.bind_some, descend_cons] at fresh
          simpa using fresh
      | none =>
          have top : front ≠ [] := by
            rintro rfl
            cases found
          have fewer : front.length ≤ fuel := by
            rw [List.length_append, List.length_singleton] at enough
            omega
          have plainFront := (SeparatedWords.plain_append.mp plain).1
          have validFront := propNameIsValid_front top valid
          have shorter := partsName_dropLast top short
          obtain ⟨middle, inner, ⟨name, here⟩, _⟩ :=
            addPropertyWithin_spec .blank fewer plainFront validFront shorter found
          rw [Option.isSome_none, if_neg Bool.false_ne_true, inner, Option.getD_some]
          exact LiveBut.graft (ih fewer plainFront validFront shorter found inner) here rfl

theorem noDangling_add {proptree grown : PropTree} {name : CString} {value : GValue}
    {locked : Bool} (fine : NoDangling proptree) (valid : propNameIsValid name = true)
    (short : name.length < maxPropPath) (set : value.isSet = true)
    (fresh : proptreeLookup proptree name = none)
    (done : proptreeAddProperty proptree name value locked = some grown) : NoDangling grown := by
  have written := partsName_nameParts valid
  have absent : descend proptree (nameParts name) = none := by
    rwa [proptreeLookup, Option.map_eq_none_iff, proptreeLookupNode, if_pos valid] at fresh
  have enough : (nameParts name).length ≤ name.length := by
    have bound := partsName_length (nameParts name)
    rwa [written] at bound
  obtain ⟨other, done', found, _⟩ :=
    proptreeAddProperty_spec value locked valid short fresh
  have same : other = grown := Option.some.inj (done'.symm.trans done)
  rw [same] at found
  obtain ⟨_, node, here, data⟩ := proptreeLookup_some.mp found
  have loose : LiveBut EsconfProperty.dangling (nameParts name) grown := by
    apply addPropertyWithin_loose enough (nameParts_plain name) _ (short_parent valid short)
      absent fine
    · rw [written]
      exact done
    · rwa [written]
  apply loose.settle here
  right
  right
  rw [data]
  simp [EsconfProperty.dangling, set]

theorem unlink_loose {proptree : PropTree} {front : List CString} {name : CString}
    (loose : LiveBut EsconfProperty.dangling (front ++ [name]) proptree) {node : PropTree}
    (found : descend proptree (front ++ [name]) = some node) :
    LiveBut EsconfProperty.dangling front (unlink (front ++ [name]) proptree) ∧
      ∃ parent, descend (unlink (front ++ [name]) proptree) front = some parent := by
  obtain ⟨cut, done, loose'⟩ := loose.remove cut_keepsKey found rfl
  have same : unlink (front ++ [name]) proptree = cut := by
    rw [unlink, done]
    rfl
  rw [descend_append] at found
  obtain ⟨parent, there, _⟩ := Option.bind_eq_some_iff.mp found
  refine ⟨?_, _, descend_unlink_above there⟩
  rw [same]
  exact loose'

theorem noDangling_removeParents {upward : List CString} {proptree node : PropTree}
    (plain : SeparatedWords.Plain '/' upward)
    (loose : LiveBut EsconfProperty.dangling upward.reverse proptree)
    (found : descend proptree upward.reverse = some node) :
    NoDangling (removeParents upward proptree) := by
  induction upward generalizing proptree node with
  | nil => exact loose.settle found (Or.inl rfl)
  | cons name above ih =>
      obtain ⟨key, prop, children⟩ := node
      rw [removeParents, found]
      cases children with
      | cons first rest => exact loose.settle found (Or.inr (Or.inl (by simp)))
      | nil =>
          dsimp only
          split
          · next stop =>
              rw [List.reverse_cons] at loose found ⊢
              obtain ⟨loose', parent, there⟩ := unlink_loose loose found
              exact ih (fun word member => plain word (List.mem_cons_of_mem _ member)) loose' there
          · next stays =>
              apply loose.settle found
              right
              right
              have named : key = name := by
                rw [List.reverse_cons] at found
                exact descend_key found
              have slash : key ≠ ['/'] := by
                rw [named]
                intro root
                apply plain name List.mem_cons_self
                rw [root]
                decide
              have valued : prop.value.isSet = true ∨ prop.systemValue.isSet = true := by
                by_contra unset
                apply stays
                simpa [slash] using unset
              rcases valued with user | system
              · simp [EsconfProperty.dangling, user]
              · simp [EsconfProperty.dangling, system]

theorem noDangling_reset {proptree after : PropTree} {name : CString} (fine : NoDangling proptree)
    (done : proptreeReset proptree name = some after) : NoDangling after := by
  unfold proptreeReset at done
  split at done
  · cases done
  · next key prop children looked =>
      obtain ⟨valid, found⟩ := proptreeLookupNode_some.mp looked
      split at done
      · next set =>
          split at done
          · next keeps =>
              cases done
              apply noDangling_update fine found
              rw [Bool.or_eq_true] at keeps
              rcases keeps with full | system
              · left
                simpa using full
              · right
                simp [EsconfProperty.dangling, EsconfProperty.withValue, system]
          · cases done
            obtain ⟨front, last, split⟩ : ∃ front last, nameParts name = front ++ [last] :=
              ⟨_, _, (List.dropLast_append_getLast (nameParts_ne_nil valid)).symm⟩
            have plain := nameParts_plain name
            rw [split] at found plain ⊢
            obtain ⟨loose, parent, there⟩ := unlink_loose (LiveBut.of_live fine found) found
            have upward : (front ++ [last]).reverse.tail = front.reverse := by simp
            rw [upward]
            apply noDangling_removeParents
            · intro word member
              exact plain word (List.mem_append_left _ (List.mem_reverse.mp member))
            · rw [List.reverse_reverse]
              exact loose
            · rw [List.reverse_reverse]
              exact there
      · cases done

/-- What the clean-up of a recursive reset leaves at a path is enough to keep its parent: the
parent is the root, something in the subtree is a default or locked, or the parent has
another child or something of its own. -/
def KeepsParent (proptree : PropTree) (path : List CString) : Prop :=
  path.dropLast = [] ∨
    (∃ top, descend proptree path = some top ∧ someAlive (fun prop => !prop.lasting) top = true) ∨
    ∃ parent, descend proptree path.dropLast = some parent ∧
      (2 ≤ parent.children.length ∨ parent.data.dangling = false)

theorem prune_isSome_lasting (top : PropTree) :
    (nodesCleanUp (nodesDoPropReset top)).isSome = someAlive (fun prop => !prop.lasting) top := by
  have blanked : (fun prop : EsconfProperty => (prop.withValue .invalid).dangling) =
      fun prop => !prop.lasting := funext EsconfProperty.dangling_cleared
  rw [nodesCleanUp, prune_isSome, nodesDoPropReset, someAlive_mapData, blanked]

/-- A recursive reset leaves no dangling node exactly if the parent of the subtree is kept. -/
theorem noDangling_resetAt {proptree top : PropTree} {path : List CString} (full : path ≠ [])
    (fine : NoDangling proptree) (found : descend proptree path = some top) :
    NoDangling (resetAt proptree path) ↔ KeepsParent proptree path := by
  have keeps : KeepsKey fun sub : PropTree => some (nodesDoPropReset sub) := mapData_keepsKey _
  have cleans : KeepsKey fun sub : PropTree => nodesCleanUp (nodesDoPropReset sub) := by
    intro sub sub' kept
    rw [(prune_key kept).1]
    exact mapData_key _ sub
  have whole : resetAt proptree path =
      (alterAt (fun sub => nodesCleanUp (nodesDoPropReset sub)) path proptree).getD
        (change nodesDoPropReset path proptree) := by
    unfold resetAt
    dsimp only
    rw [alterAt_after_change keeps]
  have loose := LiveBut.of_live fine found
  cases image : nodesCleanUp (nodesDoPropReset top) with
  | some top' =>
      have alive := live_iff.mp (live_prune top' image)
      obtain ⟨after, done, loose'⟩ := loose.rewrite cleans found image alive.2
      have there := descend_alterAt_inside cleans done found image []
      rw [List.append_nil] at there
      rw [whole, done]
      apply iff_of_true
      · exact loose'.settle there (Or.inr alive.1)
      · refine Or.inr (Or.inl ⟨top, found, ?_⟩)
        rw [← prune_isSome_lasting, image]
        rfl
  | none =>
      obtain ⟨front, name, rfl⟩ : ∃ front name, path = front ++ [name] :=
        ⟨_, _, (List.dropLast_append_getLast full).symm⟩
      obtain ⟨after, done, loose'⟩ := loose.remove cleans found image
      have reached := found
      rw [descend_append] at reached
      obtain ⟨⟨key, prop, children⟩, above, step⟩ := Option.bind_eq_some_iff.mp reached
      obtain ⟨child, here, same⟩ := Option.bind_eq_some_iff.mp step
      cases same
      have there : descend after front = some (.node key prop (alterFirst name
          (fun sub => nodesCleanUp (nodesDoPropReset sub)) children)) := by
        have done' := done
        rw [alterAt_append] at done'
        have moved := descend_alterAt_inside (alterAt_keepsKey cleans [name]) done' above rfl []
        rwa [List.append_nil] at moved
      have fewer : (alterFirst name (fun sub => nodesCleanUp (nodesDoPropReset sub))
          children).length + 1 = children.length := alterFirst_removed here image
      have dead : someAlive (fun prop => !prop.lasting) top = false := by
        rw [← prune_isSome_lasting, image]
        rfl
      have result : resetAt proptree (front ++ [name]) = after := by
        rw [whole, done]
        rfl
      rw [result]
      constructor
      · intro clean
        by_cases root : front = []
        · exact Or.inl (by rw [List.dropLast_concat]; exact root)
        · refine Or.inr (Or.inr ⟨_, by rw [List.dropLast_concat]; exact above, ?_⟩)
          rcases LiveBut.dead_leaf clean root there with left | own
          · left
            have more := List.length_pos_iff.mpr left
            rw [children_node] at more ⊢
            omega
          · exact Or.inr own
      · intro kept
        rcases kept with root | ⟨top', found', living⟩ | ⟨parent, above', own⟩
        · rw [List.dropLast_concat] at root
          exact loose'.settle there (Or.inl root)
        · rw [found] at found'
          cases found'
          rw [dead] at living
          cases living
        · rw [List.dropLast_concat, above] at above'
          cases above'
          apply loose'.settle there
          right
          rcases own with others | own
          · left
            intro empty
            rw [children_node] at others empty
            have none := congrArg List.length empty
            rw [List.length_nil] at none
            omega
          · exact Or.inr own

variable (host : Host)

namespace Modification

def property : Modification → CString
  | set property _ => property
  | reset property _ => property

/-- A change of a property or subtree by a valid name that fits the path buffers. -/
structure Proper (modification : Modification) : Prop where
  valid : esconfPropertyIsValid modification.property = none
  short : modification.property.length < maxPropPath
  value : ∀ property value, modification = .set property value → value.isSet = true

def KeepsParent (proptree : PropTree) : Modification → Prop
  | reset property true => Esconf.KeepsParent proptree (nameParts property)
  | _ => True

end Modification

def AllSucceed (channelName : CString) : EsconfBackendPerchannelXml → List Modification → Prop
  | _, [] => True
  | xbpx, modification :: later => ∃ after,
      modification.perform host xbpx channelName = some (.ok (), after) ∧
        AllSucceed channelName after later

/-- No node of the channel dangles, in this state and after each of the changes. -/
def NeverDangling (channelName : CString) : EsconfBackendPerchannelXml → List Modification → Prop
  | xbpx, [] => ∀ channel, xbpx.channels.lookup channelName = some channel →
      NoDangling channel.properties
  | xbpx, modification :: later =>
      (∀ channel, xbpx.channels.lookup channelName = some channel →
        NoDangling channel.properties) ∧
      ∀ after, modification.perform host xbpx channelName = some (.ok (), after) →
        NeverDangling channelName after later

/-- Each recursive reset among the changes keeps the parent of its subtree. -/
def ParentsKept (channelName : CString) : EsconfBackendPerchannelXml → List Modification → Prop
  | _, [] => True
  | xbpx, modification :: later =>
      (∀ channel, xbpx.channels.lookup channelName = some channel →
        modification.KeepsParent channel.properties) ∧
      ∀ after, modification.perform host xbpx channelName = some (.ok (), after) →
        ParentsKept channelName after later

variable {host}

theorem noDangling_setIn {xbpx after : EsconfBackendPerchannelXml} {channelName property : CString}
    {channel : EsconfChannel} {value : GValue}
    (loaded : xbpx.channels.lookup channelName = some channel)
    (fine : NoDangling channel.properties) (valid : propNameIsValid property = true)
    (short : property.length < maxPropPath) (set : value.isSet = true)
    (done : setIn xbpx channelName channel channelName property value = (.ok (), after)) :
    ∃ channel', after.channels.lookup channelName = some channel' ∧
      NoDangling channel'.properties := by
  unfold setIn at done
  split at done
  · next prop looked =>
      split at done
      · cases done
      split at done
      · cases done
        exact ⟨channel, loaded, fine⟩
      · cases done
        obtain ⟨_, node, found, _⟩ := proptreeLookup_some.mp looked
        refine ⟨_, AList.lookup_insert _, ?_⟩
        exact noDangling_update fine found (Or.inr (dangling_withValue set node.data))
  · next fresh =>
      cases done
      obtain ⟨grown, added, _⟩ := proptreeAddProperty_spec value false valid short fresh
      refine ⟨_, AList.lookup_insert _, ?_⟩
      change NoDangling ((proptreeAddProperty channel.properties property value false).getD _)
      rw [added]
      exact noDangling_add fine valid short set fresh added

theorem noDangling_perform {xbpx after : EsconfBackendPerchannelXml} {channelName : CString}
    {channel : EsconfChannel} {modification : Modification} (proper : modification.Proper)
    (loaded : xbpx.channels.lookup channelName = some channel)
    (fine : NoDangling channel.properties)
    (done : modification.perform host xbpx channelName = some (.ok (), after)) :
    ∃ channel', after.channels.lookup channelName = some channel' ∧
      (NoDangling channel'.properties ↔ modification.KeepsParent channel.properties) := by
  have valid := propNameIsValid_of_property proper.valid
  cases modification with
  | set property value =>
      rcases guarded_cases done with ⟨error, refused⟩ | ⟨_, inner, performed, same⟩
      · cases refused
      · rw [perchannelXmlSet, findChannel_loaded host loaded] at performed
        cases performed
        obtain ⟨result, state⟩ := Prod.mk.inj same
        have success : setIn xbpx channelName channel channelName property value =
            (.ok (), after) := by
          apply Prod.ext
          · cases outcome : (setIn xbpx channelName channel channelName property value).1 with
            | ok _ => rfl
            | error _ =>
                rw [outcome] at result
                cases result
          · exact state.symm
        obtain ⟨channel', there, clean⟩ := noDangling_setIn loaded fine valid proper.short
          (proper.value property value rfl) success
        exact ⟨channel', there, iff_of_true clean trivial⟩
  | reset property recursive =>
      rcases guarded_cases done with ⟨error, refused⟩ | ⟨_, inner, performed, same⟩
      · cases refused
      · rw [perchannelXmlReset, onChannel_loaded host loaded] at performed
        cases performed
        obtain ⟨result, state⟩ := Prod.mk.inj same
        cases recursive with
        | false =>
            rw [if_pos (by rfl)] at result state
            cases resetted : proptreeReset channel.properties property with
            | none =>
                rw [resetted] at result
                cases result
            | some properties =>
                rw [resetted] at state
                cases state
                refine ⟨_, AList.lookup_insert _, ?_⟩
                exact iff_of_true (noDangling_reset fine resetted) trivial
        | true =>
            have long : 2 ≤ property.length := by
              obtain ⟨c, rest, rfl, _⟩ := propNameIsValid_iff.mp valid
              simp
            rw [if_neg (by simp), if_pos long] at result state
            cases looked : proptreeLookupNode channel.properties property with
            | none =>
                rw [looked] at result
                cases result
            | some top =>
                rw [looked] at state
                cases state
                refine ⟨_, AList.lookup_insert _, ?_⟩
                exact noDangling_resetAt (nameParts_ne_nil valid) fine
                  (proptreeLookupNode_some.mp looked).2

theorem NeverDangling.now {channelName : CString} {xbpx : EsconfBackendPerchannelXml}
    {modifications : List Modification} (never : NeverDangling host channelName xbpx modifications)
    {channel : EsconfChannel} (loaded : xbpx.channels.lookup channelName = some channel) :
    NoDangling channel.properties := by
  cases modifications with
  | nil => exact never channel loaded
  | cons modification later => exact never.1 channel loaded

/-- A run of successful changes never leaves a dangling node exactly if each of its
recursive resets keeps the parent of its subtree. -/
theorem never_dangling_iff (host : Host) (xbpx : EsconfBackendPerchannelXml)
    (channelName : CString) (channel : EsconfChannel) (modifications : List Modification)
    (loaded : xbpx.channels.lookup channelName = some channel)
    (fine : NoDangling channel.properties)
    (proper : ∀ modification ∈ modifications, modification.Proper)
    (succeed : AllSucceed host channelName xbpx modifications) :
    NeverDangling host channelName xbpx modifications ↔
      ParentsKept host channelName xbpx modifications := by
  induction modifications generalizing xbpx channel with
  | nil =>
      apply iff_of_true
      · intro other here
        rw [loaded] at here
        cases here
        exact fine
      · trivial
  | cons modification later ih =>
      obtain ⟨after, done, succeed'⟩ := succeed
      rw [List.forall_mem_cons] at proper
      obtain ⟨channel', loaded', step⟩ := noDangling_perform proper.1 loaded fine done
      have next : ∀ {P : EsconfBackendPerchannelXml → Prop},
          (∀ other, modification.perform host xbpx channelName = some (.ok (), other) → P other) ↔
            P after := by
        intro P
        constructor
        · exact fun all => all after done
        · intro here other done'
          rw [done] at done'
          cases done'
          exact here
      have now : ∀ {P : EsconfChannel → Prop},
          (∀ other, xbpx.channels.lookup channelName = some other → P other) ↔ P channel := by
        intro P
        simp [loaded]
      rw [NeverDangling, ParentsKept, next, next, now, now]
      constructor
      · intro never
        have clean := never.2.now loaded'
        exact ⟨step.mp clean, (ih after channel' loaded' clean proper.2 succeed').mp never.2⟩
      · intro kept
        have clean := step.mpr kept.1
        exact ⟨fine, (ih after channel' loaded' clean proper.2 succeed').mpr kept.2⟩

def branchOnly : PropTree :=
  .node "/".toList .blank
    [.node "a".toList .blank [.node "b".toList ⟨.int 1, .invalid, false⟩ []]]

def branchHolder : EsconfBackendPerchannelXml :=
  (EsconfBackendPerchannelXml.idle ∅).store "c".toList ⟨branchOnly, false, false⟩

/-- A recursive reset of the only property below "/a" leaves "/a" without anything. -/
theorem parent_left_dangling :
    NoDangling branchOnly ∧
      (∀ modification ∈ [Modification.reset "/a/b".toList true], modification.Proper) ∧
      AllSucceed (Host.bare []) "c".toList branchHolder [.reset "/a/b".toList true] ∧
      ¬NeverDangling (Host.bare []) "c".toList branchHolder [.reset "/a/b".toList true] := by
  refine ⟨by decide, ?_, ⟨_, rfl, trivial⟩, ?_⟩
  · exact List.forall_mem_singleton.mpr ⟨by decide, by decide, nofun⟩
  · intro never
    have clean := never.2 _ rfl _ rfl
    revert clean
    decide

/-- With a second property below "/a" the same reset leaves nothing dangling. -/
theorem never_dangling_sibling :
    NeverDangling (Host.bare []) "c".toList branchHolder
      [.set "/a/d".toList (.int 2), .reset "/a/b".toList true] := by
  apply (never_dangling_iff (Host.bare []) branchHolder "c".toList ⟨branchOnly, false, false⟩
    [.set "/a/d".toList (.int 2), .reset "/a/b".toList true] rfl (by decide) ?_
    ⟨_, rfl, _, rfl, trivial⟩).mpr
  · refine ⟨fun _ _ => trivial, ?_⟩
    intro after done
    cases done
    refine ⟨?_, fun _ _ => trivial⟩
    intro channel loaded
    cases loaded
    exact Or.inr (Or.inr ⟨_, rfl, by decide⟩)
  · refine List.forall_mem_cons.mpr ⟨⟨by decide, by decide, ?_⟩,
      List.forall_mem_singleton.mpr ⟨by decide, by decide, nofun⟩⟩
    intro property value same
    cases same
    rfl

end Esconf
