import Esconf.Backend
import Esconf.ElementSteps

/-! Property elements that are rejected, and what they leave in the values of the channel. -/

namespace Esconf

open NamedTree

/-- Every name is answered for alike before and after. -/
def Traceless (before after : EsconfChannel) : Prop :=
  ∀ property, effectiveAt after property = effectiveAt before property

/-- The element is rejected before its type is initialised: for a lock attribute in a user
file, or for its type. -/
def Unwritten (host : Host) (state : XmlParserState) (type : CString) (attributes : Attributes) :
    Prop :=
  LockRefused host state attributes ∨ gtypeFromString type = .invalid

/-- What a slot has to hold so that it stays as it is: nothing that is cleared, or else the
zero that is left where the text of the value is refused. -/
def StaysAt (host : Host) (state : XmlParserState) (type : CString) (attributes : Attributes)
    (prop : EsconfProperty) : Prop :=
  (Unwritten host state type attributes →
    if state.isSystemFile then prop.effective = .invalid
    else prop.value = .invalid ∨ prop.value = prop.systemValue) ∧
  (¬Unwritten host state type attributes →
    prop.effective = GValue.zero (gtypeFromString type))

/-- The element is rejected for its attributes, or its slot stays as it is. -/
def RejectedHarmlessly (host : Host) (state : XmlParserState) (attributes : Attributes) : Prop :=
  ∀ name type, unknownAttribute attributes propertyAttributes = none →
    filled (attributeValue attributes "name".toList) = some name →
    filled (attributeValue attributes "type".toList) = some type →
    StaysAt host state type attributes
      (state.properties.slot (nameParts (elementPath state.curPath name)))

variable {host : Host} {state after ready : XmlParserState} {fullpath type : CString}
  {attributes : Attributes} {error : GError}

theorem effective_set {prop : EsconfProperty} (set : prop.value ≠ .invalid) :
    prop.effective = prop.value := by
  have isSet : prop.value.isSet = true := by
    rw [← Bool.not_eq_false, GValue.isSet_eq_false]
    exact set
  rw [EsconfProperty.effective, if_pos isSet]

theorem effective_unset {prop : EsconfProperty} (unset : prop.value = .invalid) :
    prop.effective = prop.systemValue := by
  rw [EsconfProperty.effective, unset]
  rfl

/-- Only the slot of the element tells the two channels apart. -/
theorem traceless_iff {before after : EsconfChannel} (valid : propNameIsValid fullpath = true)
    (others : ∀ path, path ≠ nameParts fullpath →
      after.properties.slot path = before.properties.slot path) :
    Traceless before after ↔
      (after.properties.slot (nameParts fullpath)).effective =
        (before.properties.slot (nameParts fullpath)).effective := by
  constructor
  · intro same
    have here := same fullpath
    rwa [effectiveAt_slot valid, effectiveAt_slot valid] at here
  · intro here property
    by_cases named : propNameIsValid property = true
    · rw [effectiveAt_slot named, effectiveAt_slot named]
      by_cases path : nameParts property = nameParts fullpath
      · rw [path]
        exact here
      · exact congrArg EsconfProperty.effective (others _ path)
    · unfold effectiveAt proptreeLookup proptreeLookupNode
      rw [if_neg named, if_neg named]

/-- Where the type is not known, nothing is written; where the text of the value is refused,
the zero of the type is. -/
theorem xmlPropertyValue_rejected {value : Option CString}
    (rejected : xmlPropertyValue host ready fullpath type value = .error error after) :
    gtypeFromString type = .invalid ∧ after = ready ∨
      gtypeFromString type ≠ .invalid ∧ gtypeFromString type ≠ .none ∧
        after = ready.updateSlot fullpath fun _ => GValue.zero (gtypeFromString type) := by
  unfold xmlPropertyValue at rejected
  cases known : gtypeFromString type with
  | invalid =>
      rw [known] at rejected
      cases rejected
      exact .inl ⟨rfl, rfl⟩
  | none =>
      rw [known] at rejected
      cases rejected
  | _ =>
      rw [known] at rejected
      dsimp only at rejected
      right
      split at rejected
      · cases rejected
      · cases rejected
        refine ⟨?_, ?_, rfl⟩ <;> intro same <;> cases same
      · split at rejected <;> cases rejected

theorem Cleared.stays_iff {system : Bool} {path : List CString} {before opened : PropTree}
    (cleared : Cleared system path before opened) :
    (opened.slot path).effective = (before.slot path).effective ↔
      if system then (before.slot path).effective = .invalid
      else (before.slot path).value = .invalid ∨
        (before.slot path).value = (before.slot path).systemValue := by
  rw [effective_unset cleared.value, cleared.systemValue]
  cases system with
  | true => exact eq_comm
  | false =>
      rw [if_neg Bool.false_ne_true, if_neg Bool.false_ne_true]
      by_cases unset : (before.slot path).value = .invalid
      · rw [effective_unset unset]
        simp only [unset, true_or]
      · rw [effective_set unset, or_iff_right unset]
        exact eq_comm

theorem zero_ne_invalid {type : GType} (known : type ≠ .invalid) (typed : type ≠ .none) :
    GValue.zero type ≠ .invalid := by
  cases type with
  | invalid => exact absurd rfl known
  | none => exact absurd rfl typed
  | _ =>
      intro same
      cases same

theorem Cleared.updateSlot_effective {opened : PropTree}
    (cleared : Cleared state.isSystemFile (nameParts fullpath) state.properties opened)
    {value : GValue} (set : value ≠ .invalid) :
    (((state.withProperties opened).updateSlot fullpath fun _ => value).properties.slot
      (nameParts fullpath)).effective = value := by
  refine (congrArg EsconfProperty.effective (slot_update _ (nameParts fullpath) opened _)).trans ?_
  rw [if_pos ⟨rfl, cleared.there⟩]
  split
  · exact effective_unset cleared.value
  · exact effective_set set

theorem unwritten_traceless_iff {opened : PropTree} (valid : propNameIsValid fullpath = true)
    (cleared : Cleared state.isSystemFile (nameParts fullpath) state.properties opened)
    (unwritten : Unwritten host state type attributes) :
    Traceless state.channel (state.withProperties opened).channel ↔
      StaysAt host state type attributes (state.properties.slot (nameParts fullpath)) := by
  refine (traceless_iff valid cleared.others).trans (cleared.stays_iff.trans ?_)
  unfold StaysAt
  constructor
  · exact fun stays => ⟨fun _ => stays, fun written => absurd unwritten written⟩
  · exact fun stays => stays.1 unwritten

theorem written_traceless_iff {opened : PropTree} (valid : propNameIsValid fullpath = true)
    (cleared : Cleared state.isSystemFile (nameParts fullpath) state.properties opened)
    (written : ¬Unwritten host state type attributes) (typed : gtypeFromString type ≠ .none) :
    Traceless state.channel ((state.withProperties opened).updateSlot fullpath
        fun _ => GValue.zero (gtypeFromString type)).channel ↔
      StaysAt host state type attributes (state.properties.slot (nameParts fullpath)) := by
  have set := zero_ne_invalid (fun invalid => written (.inr invalid)) typed
  refine (traceless_iff valid ?_).trans ?_
  · intro path other
    refine (slot_update _ (nameParts fullpath) opened path).trans ?_
    rw [if_neg fun both => other both.1]
    exact cleared.others path other
  · have here := cleared.updateSlot_effective set
    unfold XmlParserState.properties at here
    rw [here, eq_comm]
    unfold StaysAt
    constructor
    · exact fun zero => ⟨fun unwritten => absurd unwritten written, fun _ => zero⟩
    · exact fun stays => stays.2 written

theorem rejectedAt_traceless_iff (short : fullpath.length < maxPropPath)
    (rejected : xmlPropertyAt host state fullpath type attributes = .error error after) :
    Traceless state.channel after.channel ↔
      StaysAt host state type attributes (state.properties.slot (nameParts fullpath)) := by
  have loadable := @loadable_of_handled host state fullpath type attributes (by
    intro faulty fault
    rw [rejected] at fault
    cases fault)
  rcases xmlPropertyAt_cases host loadable short type attributes with
    ⟨_, passed⟩ | ⟨_, _, faulty⟩ | ⟨_, valid, opened, cleared, _, locks⟩
  · rw [passed] at rejected
    cases rejected
  · rw [faulty] at rejected
    cases rejected
  rw [locks] at rejected
  rcases xmlPropertyLocks_cases host cleared type attributes with
    ⟨locks, _, refused⟩ | ⟨allowed, ready, cleared', _, value⟩
  · rw [refused] at rejected
    cases rejected
    exact unwritten_traceless_iff valid cleared (.inl locks)
  · rw [value] at rejected
    rcases xmlPropertyValue_rejected rejected with ⟨unknown, rfl⟩ | ⟨known, typed, rfl⟩
    · exact unwritten_traceless_iff valid cleared' (.inr unknown)
    · refine written_traceless_iff valid cleared' ?_ typed
      exact fun unwritten => unwritten.elim allowed known

/-- A rejected property element leaves every value as it was exactly if the slot of its name
is unset or holds its default where it is only cleared, and holds the zero of the type where
the text of the value is refused. -/
theorem rejected_traceless_iff (host : Host) (state after : XmlParserState)
    (attributes : Attributes) (error : GError)
    (rejected : xmlHandleProperty host state attributes = .error error after) :
    Traceless state.channel after.channel ↔ RejectedHarmlessly host state attributes := by
  unfold xmlHandleProperty at rejected
  have unread : after = state →
      (∀ name type, unknownAttribute attributes propertyAttributes = none →
        filled (attributeValue attributes "name".toList) = some name →
        filled (attributeValue attributes "type".toList) = some type → False) →
      (Traceless state.channel after.channel ↔ RejectedHarmlessly host state attributes) := by
    rintro rfl never
    exact iff_of_true (fun _ => rfl) fun name type known named typed =>
      (never name type known named typed).elim
  split at rejected
  next unknown given =>
    cases rejected
    refine unread rfl fun name type known => ?_
    rw [given] at known
    cases known
  next known =>
    split at rejected
    next name type named typed =>
      rw [rejectedAt_traceless_iff (elementPath_length state.curPath name) rejected]
      constructor
      · intro stays name' type' _ named' typed'
        obtain rfl := Option.some.inj (named.symm.trans named')
        obtain rfl := Option.some.inj (typed.symm.trans typed')
        exact stays
      · exact fun all => all name type known named typed
    next missing =>
      cases rejected
      exact unread rfl fun name type _ named typed => missing name type named typed

/-- An element of an unknown type leaves an unset property as it was. -/
theorem untyped_traceless :
    ∃ error after, xmlHandleProperty (.bare []) { startState .root true with curElem := .channel }
        [("name".toList, "a".toList), ("type".toList, "number".toList)] = .error error after ∧
      Traceless .root after.channel := by
  refine ⟨_, _, rfl, (rejected_traceless_iff (.bare [])
    { startState .root true with curElem := .channel } _
    [("name".toList, "a".toList), ("type".toList, "number".toList)] _ rfl).mpr ?_⟩
  intro name type _ named typed
  obtain rfl : "a".toList = name := Option.some.inj named
  obtain rfl : "number".toList = type := Option.some.inj typed
  exact ⟨fun _ => rfl, fun written => absurd (.inr rfl) written⟩

/-- A property whose number cannot be read gets the number 0. -/
theorem refused_number_stored :
    ∃ error after, xmlHandleProperty (.bare []) { startState .root false with curElem := .channel }
        [("name".toList, "a".toList), ("type".toList, "int".toList),
          ("value".toList, "x".toList)] = .error error after ∧
      effectiveAt EsconfChannel.root "/a".toList = .invalid ∧
      effectiveAt after.channel "/a".toList = .int 0 :=
  ⟨_, _, rfl, rfl, rfl⟩

end Esconf
