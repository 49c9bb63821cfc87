import Esconf.PropTreeReset
import Esconf.XmlParser

/-! What a property element does before it comes to its type and its value, whatever is locked
and whatever stands in the tree. -/

namespace Esconf

open NamedTree

structure Cleared (system : Bool) (path : List CString) (before after : PropTree) : Prop where
  there : (descend after path).isSome
  value : (after.slot path).value = .invalid
  systemValue : (after.slot path).systemValue =
    if system then .invalid else (before.slot path).systemValue
  others : ∀ other, other ≠ path → after.slot other = before.slot other
  kept : ∀ other, (descend before other).isSome → (descend after other).isSome

def Skipped (state : XmlParserState) (fullpath : CString) : Prop :=
  state.isSystemFile = false ∧
    ∃ prop, proptreeLookup state.properties fullpath = some prop ∧ prop.locked = true

def LockRefused (host : Host) (state : XmlParserState) (attributes : Attributes) : Prop :=
  (lockedState host attributes).isSome = true ∧ state.isSystemFile = false

def Loadable (state : XmlParserState) : Prop :=
  state.channel.locked = true → state.isSystemFile = true

variable {host : Host} {state : XmlParserState} {fullpath : CString} {type : CString}
  {attributes : Attributes}

theorem Cleared.update_locked {system : Bool} {path : List CString} {before after : PropTree}
    (cleared : Cleared system path before after) (locked : Bool) :
    Cleared system path before (update (·.withLocked locked) path after) := by
  refine ⟨descend_update_isSome _ _ _ _ cleared.there, ?_, ?_, ?_,
    fun other there => descend_update_isSome _ _ _ _ (cleared.kept other there)⟩
  · rw [slot_update, if_pos ⟨rfl, cleared.there⟩]
    exact cleared.value
  · rw [slot_update, if_pos ⟨rfl, cleared.there⟩]
    exact cleared.systemValue
  · intro other apart
    rw [slot_update, if_neg fun same => apart same.1]
    exact cleared.others other apart

theorem Cleared.slot {system : Bool} {path : List CString} {before after : PropTree}
    (cleared : Cleared system path before after)
    (lock : (after.slot path).locked = (before.slot path).locked) (other : List CString) :
    after.slot other =
      if other = path then clearProperty system (before.slot other) else before.slot other := by
  split
  next same =>
    obtain ⟨_, value, systemValue, _, _⟩ := cleared
    rw [same]
    generalize after.slot path = prop at value systemValue lock
    cases prop
    cases value
    cases systemValue
    cases lock
    cases system <;> rfl
  next apart => exact cleared.others other apart

theorem cleared_found {proptree : PropTree} {prop : EsconfProperty} (system : Bool)
    (found : proptreeLookup proptree fullpath = some prop) :
    Cleared system (nameParts fullpath) proptree
      (update (clearProperty system) (nameParts fullpath) proptree) := by
  obtain ⟨_, node, here, _⟩ := proptreeLookup_some.mp found
  have there : (descend proptree (nameParts fullpath)).isSome := by
    rw [here]
    rfl
  refine ⟨descend_update_isSome _ _ _ _ there, ?_, ?_, ?_, fun other => descend_update_isSome _ _ _ _⟩
  · rw [slot_update, if_pos ⟨rfl, there⟩]
    cases system <;> rfl
  · rw [slot_update, if_pos ⟨rfl, there⟩]
    cases system <;> rfl
  · intro other apart
    rw [slot_update, if_neg fun same => apart same.1]

theorem cleared_added {proptree grown : PropTree} {locked : Bool} (system : Bool)
    (short : fullpath.length < maxPropPath) (missing : proptreeLookup proptree fullpath = none)
    (added : proptreeAddProperty proptree fullpath .invalid locked = some grown) :
    Cleared system (nameParts fullpath) proptree grown ∧
      (grown.slot (nameParts fullpath)).locked = locked := by
  have valid := proptreeAddProperty_valid added
  obtain ⟨grown', done, here, slots, _⟩ :=
    proptreeAddProperty_spec .invalid locked valid short missing
  obtain rfl : grown = grown' := Option.some.inj (added.symm.trans done)
  obtain ⟨_, node, found, _⟩ := proptreeLookup_some.mp here
  have blank := slots (nameParts fullpath)
  rw [if_pos rfl] at blank
  rw [blank]
  refine ⟨⟨?_, ?_, ?_, ?_, (proptreeAddProperty_extends done).isSome⟩, rfl⟩
  · rw [found]
    rfl
  · rw [blank]
  · rw [blank, proptreeLookup_none_slot valid missing]
    cases system <;> rfl
  · intro other apart
    rw [slots, if_neg apart]

theorem skipped_iff (valid : propNameIsValid fullpath = true) :
    Skipped state fullpath ↔ state.isSystemFile = false ∧
      (state.properties.slot (nameParts fullpath)).locked = true := by
  unfold Skipped
  apply and_congr_right
  intro _
  cases looked : proptreeLookup state.properties fullpath with
  | none =>
      rw [proptreeLookup_none_slot valid looked]
      simp [EsconfProperty.blank]
  | some prop =>
      rw [proptreeLookup_slot looked]
      simp

theorem loadable_of_unlocked (unlocked : state.channel.locked = false) : Loadable state := by
  intro locked
  rw [unlocked] at locked
  cases locked

theorem Loadable.unlocked (loadable : Loadable state) (user : state.isSystemFile = false) :
    state.channel.locked = false := by
  rw [Bool.eq_false_iff]
  intro locked
  rw [loadable locked] at user
  cases user

theorem Loadable.read (loadable : Loadable state) :
    ¬(state.channel.locked && !state.isSystemFile) = true := by
  rw [Bool.and_eq_true, Bool.not_eq_true']
  intro both
  rw [loadable both.1] at both
  cases both.2

theorem xmlPropertyAt_found (host : Host) (loadable : Loadable state) {prop : EsconfProperty}
    (looked : proptreeLookup state.properties fullpath = some prop) (type : CString)
    (attributes : Attributes) :
    xmlPropertyAt host state fullpath type attributes =
      if state.isSystemFile = false ∧ prop.locked = true then .ok (enterProperty fullpath state)
      else xmlPropertyLocks host (state.withProperties (update (clearProperty state.isSystemFile)
        (nameParts fullpath) state.properties)) fullpath type attributes := by
  have passes : (!state.channel.locked && prop.locked && !state.isSystemFile) = true ↔
      state.isSystemFile = false ∧ prop.locked = true := by
    rw [Bool.and_eq_true, Bool.and_eq_true, Bool.not_eq_true', Bool.not_eq_true']
    constructor
    · exact fun all => ⟨all.2, all.1.2⟩
    · exact fun both => ⟨⟨loadable.unlocked both.1, both.2⟩, both.1⟩
  have layer : (state.channel.locked || state.isSystemFile) = state.isSystemFile := by
    cases locked : state.channel.locked with
    | false => rfl
    | true => rw [loadable locked, Bool.or_true]
  unfold xmlPropertyAt
  rw [if_neg loadable.read, looked]
  dsimp only
  rw [layer]
  exact if_congr passes rfl rfl

theorem xmlPropertyAt_missing (host : Host) (loadable : Loadable state)
    (looked : proptreeLookup state.properties fullpath = none) (type : CString)
    (attributes : Attributes) :
    xmlPropertyAt host state fullpath type attributes =
      (proptreeAddProperty state.properties fullpath .invalid state.channel.locked).elim
        (.fault state) fun grown =>
          xmlPropertyLocks host (state.withProperties grown) fullpath type attributes := by
  unfold xmlPropertyAt
  rw [if_neg loadable.read, looked]
  cases proptreeAddProperty state.properties fullpath .invalid state.channel.locked with
  | none => rfl
  | some grown => rfl

/-- The element is passed over, ends the daemon for a path that is no property name, or clears
the node of its path. -/
theorem xmlPropertyAt_cases (host : Host) (loadable : Loadable state)
    (short : fullpath.length < maxPropPath)
    (type : CString) (attributes : Attributes) :
    (Skipped state fullpath ∧
      xmlPropertyAt host state fullpath type attributes = .ok (enterProperty fullpath state)) ∨
    (¬Skipped state fullpath ∧ propNameIsValid fullpath = false ∧
      xmlPropertyAt host state fullpath type attributes = .fault state) ∨
    (¬Skipped state fullpath ∧ propNameIsValid fullpath = true ∧ ∃ opened,
      Cleared state.isSystemFile (nameParts fullpath) state.properties opened ∧
      (state.channel.locked = false → (opened.slot (nameParts fullpath)).locked =
        (state.properties.slot (nameParts fullpath)).locked) ∧
      xmlPropertyAt host state fullpath type attributes =
        xmlPropertyLocks host (state.withProperties opened) fullpath type attributes) := by
  cases looked : proptreeLookup state.properties fullpath with
  | some prop =>
      obtain ⟨valid, node, found, _⟩ := proptreeLookup_some.mp looked
      have there : (descend state.properties (nameParts fullpath)).isSome := by
        rw [found]
        rfl
      rw [xmlPropertyAt_found host loadable looked]
      by_cases skipped : state.isSystemFile = false ∧ prop.locked = true
      · left
        rw [if_pos skipped]
        exact ⟨⟨skipped.1, prop, looked, skipped.2⟩, rfl⟩
      · right; right
        rw [if_neg skipped]
        refine ⟨?_, valid, _, cleared_found state.isSystemFile looked, ?_, rfl⟩
        · rintro ⟨user, other, looked', locked⟩
          obtain rfl := Option.some.inj (looked.symm.trans looked')
          exact skipped ⟨user, locked⟩
        · intro _
          rw [slot_update, if_pos ⟨rfl, there⟩]
          cases state.isSystemFile <;> rfl
  | none =>
      right
      have unskipped : ¬Skipped state fullpath := by
        rintro ⟨_, other, looked', _⟩
        rw [looked] at looked'
        cases looked'
      rw [xmlPropertyAt_missing host loadable looked]
      cases added : proptreeAddProperty state.properties fullpath .invalid
        state.channel.locked with
      | none =>
          left
          refine ⟨unskipped, ?_, rfl⟩
          rw [Bool.eq_false_iff]
          intro valid
          obtain ⟨grown, done, _⟩ :=
            proptreeAddProperty_spec .invalid state.channel.locked valid short looked
          rw [added] at done
          cases done
      | some grown =>
          right
          have valid := proptreeAddProperty_valid added
          obtain ⟨cleared, locked⟩ := cleared_added state.isSystemFile short looked added
          refine ⟨unskipped, valid, grown, cleared, ?_, rfl⟩
          intro unlocked
          rw [locked, unlocked, proptreeLookup_none_slot valid looked]
          rfl

theorem xmlPropertyLocks_cases (host : Host) {opened : PropTree}
    (cleared : Cleared state.isSystemFile (nameParts fullpath) state.properties opened)
    (type : CString) (attributes : Attributes) :
    (LockRefused host state attributes ∧ ∃ error,
      xmlPropertyLocks host (state.withProperties opened) fullpath type attributes =
        .error error (state.withProperties opened)) ∨
    (¬LockRefused host state attributes ∧ ∃ opened',
      Cleared state.isSystemFile (nameParts fullpath) state.properties opened' ∧
      (lockedState host attributes = none → opened' = opened) ∧
      xmlPropertyLocks host (state.withProperties opened) fullpath type attributes =
        xmlPropertyValue host (state.withProperties opened') fullpath type
          (attributeValue attributes "value".toList)) := by
  unfold xmlPropertyLocks LockRefused
  cases lockedState host attributes with
  | none =>
      right
      exact ⟨fun refused => absurd refused.1 Bool.false_ne_true, opened, cleared, fun _ => rfl, rfl⟩
  | some locked =>
      have kind : (state.withProperties opened).isSystemFile = state.isSystemFile := rfl
      cases system : state.isSystemFile with
      | false =>
          left
          -- The value is cleared already, so that the reset finds nothing to do.
          have unset : (opened.slot (nameParts fullpath)).value.isSet = false :=
            GValue.isSet_eq_false.mpr cleared.value
          have idle : proptreeReset (state.withProperties opened).properties fullpath = none :=
            proptreeReset_unset unset
          refine ⟨⟨rfl, rfl⟩, markupError .unknownAttribute
            "Attribute \"locked\" not allowed in <property> for non-system files".toList, ?_⟩
          simp only [kind, system, idle]
          rfl
      | true =>
          right
          rw [system] at cleared
          refine ⟨fun refused => absurd refused.2 Bool.noConfusion, _,
            cleared.update_locked (state.channel.locked || locked), ?_, ?_⟩
          · intro absent
            cases absent
          · simp only [kind, system]
            rfl

theorem loadable_of_handled (handled : ∀ faulty,
      xmlPropertyAt host state fullpath type attributes ≠ .fault faulty) : Loadable state := by
  intro locked
  by_contra user
  apply handled state
  unfold xmlPropertyAt
  rw [locked, Bool.eq_false_iff.mpr user]
  rfl

end Esconf
