import Esconf.ElementSteps
import Esconf.PropertyElements

/-! Property elements that are accepted: where their value is written, and the array they open. -/

namespace Esconf

open NamedTree

def layerValue (system : Bool) (prop : EsconfProperty) : GValue :=
  if system then prop.systemValue else prop.value

/-- An accepted property element has written its value at its path and nothing else, and is
entered; an array is the one that value elements are added to from now on. -/
structure EntersAt (host : Host) (state : XmlParserState) (fullpath : CString)
    (attributes : Attributes) (entered : XmlParserState) : Prop where
  kind : entered.isSystemFile = state.isSystemFile
  channelLocked : entered.channel.locked = state.channel.locked
  path : entered.curPath = gStrlcpy fullpath maxPropPath
  elem : entered.curElem = .property
  value : layerValue state.isSystemFile (entered.properties.slot (nameParts fullpath)) =
    (startValue host attributes).getD .invalid
  others : ∀ other, other ≠ nameParts fullpath →
    entered.properties.slot other = state.properties.slot other
  there : (descend entered.properties (nameParts fullpath)).isSome
  kept : ∀ other, (descend state.properties other).isSome →
    (descend entered.properties other).isSome
  locks : state.channel.locked = false → lockedState host attributes = none →
    (entered.properties.slot (nameParts fullpath)).locked =
      (state.properties.slot (nameParts fullpath)).locked
  list : if gtypeFromString (elementType attributes) = .ptrArray then
      entered.listProperty = some fullpath ∧ entered.listValue = some fullpath
    else entered.listProperty = state.listProperty ∧ entered.listValue = state.listValue

variable {host : Host} {state entered : XmlParserState} {fullpath : CString}
  {attributes : Attributes}

theorem Cleared.entersAt {opened ready : PropTree}
    (cleared : Cleared state.isSystemFile (nameParts fullpath) state.properties ready)
    (locks : state.channel.locked = false → (opened.slot (nameParts fullpath)).locked =
      (state.properties.slot (nameParts fullpath)).locked)
    (same : lockedState host attributes = none → ready = opened)
    (done : xmlPropertyValue host (state.withProperties ready) fullpath (elementType attributes)
      (attributeValue attributes "value".toList) = .ok entered) :
    EntersAt host state fullpath attributes entered := by
  have unlocked : state.channel.locked = false → lockedState host attributes = none →
      (ready.slot (nameParts fullpath)).locked =
        (state.properties.slot (nameParts fullpath)).locked := by
    intro open' free
    rw [same free]
    exact locks open'
  -- What becomes of the slot when a value is written to it.
  have here : ∀ parsed, ((state.withProperties ready).updateSlot fullpath
      fun _ => parsed).properties.slot (nameParts fullpath) =
        if state.isSystemFile then (ready.slot (nameParts fullpath)).withSystemValue parsed
        else (ready.slot (nameParts fullpath)).withValue parsed := by
    intro parsed
    refine (slot_update _ (nameParts fullpath) ready (nameParts fullpath)).trans ?_
    rw [if_pos ⟨rfl, cleared.there⟩]
    rfl
  have written : ∀ parsed, layerValue state.isSystemFile (((state.withProperties ready).updateSlot
      fullpath fun _ => parsed).properties.slot (nameParts fullpath)) = parsed := by
    intro parsed
    rw [here]
    cases state.isSystemFile <;> rfl
  have apart : ∀ parsed other, other ≠ nameParts fullpath →
      ((state.withProperties ready).updateSlot fullpath fun _ => parsed).properties.slot other =
        state.properties.slot other := by
    intro parsed other differs
    refine (slot_update _ (nameParts fullpath) ready other).trans ?_
    rw [if_neg fun both => differs both.1]
    exact cleared.others other differs
  have kept : ∀ parsed other, (descend state.properties other).isSome →
      (descend ((state.withProperties ready).updateSlot fullpath
        fun _ => parsed).properties other).isSome :=
    fun parsed other there => descend_update_isSome _ _ _ _ (cleared.kept other there)
  have lock : ∀ parsed, state.channel.locked = false → lockedState host attributes = none →
      (((state.withProperties ready).updateSlot fullpath fun _ => parsed).properties.slot
        (nameParts fullpath)).locked = (state.properties.slot (nameParts fullpath)).locked := by
    intro parsed open' free
    rw [here, ← unlocked open' free]
    cases state.isSystemFile <;> rfl
  rcases xmlPropertyValue_startValue host attributes fullpath with
    ⟨_, refused⟩ | ⟨given, plain, outcome⟩ | ⟨parsed, given, ⟨plain, outcome⟩ | ⟨array, outcome⟩⟩
  · exact absurd done (refused _ _)
  · rw [outcome] at done
    cases done
    refine ⟨rfl, rfl, rfl, rfl, ?_, cleared.others, cleared.there, cleared.kept, unlocked, ?_⟩
    · rw [given]
      change layerValue state.isSystemFile (ready.slot (nameParts fullpath)) = .invalid
      unfold layerValue
      cases system : state.isSystemFile with
      | true =>
          rw [if_pos rfl, cleared.systemValue, system]
          rfl
      | false => exact cleared.value
    · rw [if_neg plain]
      exact ⟨rfl, rfl⟩
  · rw [outcome] at done
    cases done
    refine ⟨rfl, rfl, rfl, rfl, ?_, apart parsed, descend_update_isSome _ _ _ _ cleared.there,
      kept parsed, lock parsed, ?_⟩
    · rw [given]
      exact written parsed
    · rw [if_neg plain]
      exact ⟨rfl, rfl⟩
  · rw [outcome] at done
    cases done
    refine ⟨rfl, rfl, rfl, rfl, ?_, apart parsed, descend_update_isSome _ _ _ _ cleared.there,
      kept parsed, lock parsed, ?_⟩
    · rw [given]
      exact written parsed
    · rw [if_pos array]
      exact ⟨rfl, rfl⟩

theorem xmlHandleProperty_read (host : Host) (state : XmlParserState)
    (known : unknownAttribute attributes propertyAttributes = none)
    (named : elementName attributes ≠ []) (typed : elementType attributes ≠ []) :
    xmlHandleProperty host state attributes = xmlPropertyAt host state
      (elementPath state.curPath (elementName attributes)) (elementType attributes) attributes := by
  unfold xmlHandleProperty
  rw [known, filled_getD named, filled_getD typed]
  rfl

/-- An accepted property element is passed over, or entered. -/
theorem xmlHandleProperty_entered
    (done : xmlHandleProperty host state attributes = .ok entered) :
    Skipped state (elementPath state.curPath (elementName attributes)) ∧
      entered = enterProperty (elementPath state.curPath (elementName attributes)) state ∨
    (propNameIsValid (elementPath state.curPath (elementName attributes)) = true ∧
        ¬LockRefused host state attributes) ∧
      EntersAt host state (elementPath state.curPath (elementName attributes)) attributes entered := by
  obtain ⟨known, named, typed⟩ := xmlHandleProperty_opens done
  rw [xmlHandleProperty_read host state known named typed] at done
  have loadable := @loadable_of_handled host state
    (elementPath state.curPath (elementName attributes)) (elementType attributes) attributes (by
      intro faulty fault
      rw [done] at fault
      cases fault)
  rcases xmlPropertyAt_cases host loadable (elementPath_length _ _) (elementType attributes)
      attributes with
    ⟨skipped, passed⟩ | ⟨_, _, faulty⟩ | ⟨_, valid, opened, cleared, locks, outcome⟩
  · left
    rw [passed] at done
    exact ⟨skipped, (Handled.ok.inj done).symm⟩
  · rw [faulty] at done
    cases done
  · right
    rw [outcome] at done
    rcases xmlPropertyLocks_cases host cleared (elementType attributes) attributes with
      ⟨_, error, refused⟩ | ⟨allowed, ready, cleared', same, value⟩
    · rw [refused] at done
      cases done
    · rw [value] at done
      exact ⟨⟨valid, allowed⟩, cleared'.entersAt locks same done⟩

theorem xmlHandleProperty_skipped (loadable : Loadable state) (opens : Opens host attributes)
    (skipped : Skipped state (elementPath state.curPath (elementName attributes))) :
    xmlHandleProperty host state attributes =
      .ok (enterProperty (elementPath state.curPath (elementName attributes)) state) := by
  rw [xmlHandleProperty_read host state opens.known opens.named opens.typed]
  rcases xmlPropertyAt_cases host loadable (elementPath_length state.curPath
      (elementName attributes)) (elementType attributes) attributes with
    ⟨_, passed⟩ | ⟨unskipped, _⟩ | ⟨unskipped, _⟩
  · exact passed
  · exact absurd skipped unskipped
  · exact absurd skipped unskipped

theorem xmlHandleProperty_accepts (loadable : Loadable state) (opens : Opens host attributes)
    (allowed : ¬LockRefused host state attributes)
    (valid : propNameIsValid (elementPath state.curPath (elementName attributes)) = true)
    (unskipped : ¬Skipped state (elementPath state.curPath (elementName attributes))) :
    ∃ entered, xmlHandleProperty host state attributes = .ok entered := by
  rw [xmlHandleProperty_read host state opens.known opens.named opens.typed]
  rcases xmlPropertyAt_cases host loadable (elementPath_length state.curPath
      (elementName attributes)) (elementType attributes) attributes with
    ⟨skipped, _⟩ | ⟨_, invalid, _⟩ | ⟨_, _, opened, cleared, _, outcome⟩
  · exact absurd skipped unskipped
  · rw [invalid] at valid
    cases valid
  rcases xmlPropertyLocks_cases host cleared (elementType attributes) attributes with
    ⟨refused, _⟩ | ⟨_, ready, _, _, value⟩
  · exact absurd refused allowed
  have read := outcome.trans value
  rcases xmlPropertyValue_startValue host attributes (elementPath state.curPath
      (elementName attributes)) with
    ⟨none, _⟩ | ⟨_, _, done⟩ | ⟨parsed, _, ⟨_, done⟩ | ⟨_, done⟩⟩
  · have some := opens.value
    rw [none] at some
    cases some
  · exact ⟨_, read.trans (done _)⟩
  · exact ⟨_, read.trans (done _)⟩
  · exact ⟨_, read.trans (done _)⟩

end Esconf
