import Esconf.DaemonCalls

/-! GetProperty and GetAllProperties of the daemon, which ask the same backends and merge
what they find in different ways. -/

namespace Esconf.Daemon

open Assignments

variable {S : Type} (host : Host) (interface : BackendInterface S)

/-- The reply of `esconf_get_property` for a value it found. -/
def replyValue (value : GValue) : Except GError GVariant :=
  match esconfGvalueToGvariant host value with
  | some val => .ok val
  | none => .error ⟨.esconf .internalError, "GType transformation failed \"".toList ++
      gTypeName value.gtype ++ "\"".toList⟩

/-- The loop of `esconf_get_property`, with the error of the backend before. -/
def getFrom (channel property : CString) (error : GError) :
    List S → Option (Except GError GVariant × List S)
  | [] => some (.error error, [])
  | backend :: rest =>
    match esconfBackendGet interface backend channel property with
    | none => none
    | some (.ok value, backend) => some (replyValue host value, backend :: rest)
    | some (.error error, backend) =>
      (getFrom channel property error rest).map fun later => (later.1, backend :: later.2)

/-- `esconf_get_property` of a daemon with at least one backend: the variant in the reply. -/
def esconfGetProperty (backends : List S) (channel property : CString) :
    Option (Except GError GVariant × List S) :=
  getFrom host interface channel property internalError backends

/-- What `esconf_hash_to_gvariant` makes of a value; one it cannot convert has no entry. -/
def tableVariant : GValue → Option GVariant
  | .ptrArray elements =>
    some (.variants ((elements.filterMap (esconfBasicGvalueToGvariant host)).map .variant))
  | .strv list => some (.strv list)
  | value => esconfBasicGvalueToGvariant host value

/-- `esconf_hash_to_gvariant` of the table that the insertions leave; a NULL array in it
ends the daemon. -/
def esconfHashToGvariant (inserted : List (CString × GValue)) :
    Option (CString → Option GVariant) :=
  if inserted.any fun entry => decide (hashTable inserted entry.1 = some .ptrArrayNull) then none
  else some fun key => (hashTable inserted key).bind (tableVariant host)

/-- The loop of `esconf_get_all_properties`: what is inserted, whether a backend succeeded
and the error of the last one, if it failed. -/
def getAllFrom (channel propertyBase : CString) : List S →
    Option (List (CString × GValue) × Bool × Option GError × List S)
  | [] => some ([], false, none, [])
  | backend :: rest =>
    match esconfBackendGetAll interface backend channel propertyBase with
    | none => none
    | some (answer, backend) =>
      (getAllFrom channel propertyBase rest).map fun (inserted, succeed, error, rest') =>
        match answer with
        | .ok entries => (entries ++ inserted, true, error, backend :: rest')
        | .error failure =>
          (inserted, succeed, if rest.isEmpty then some failure else error, backend :: rest')

/-- `esconf_get_all_properties`: the table in the reply. -/
def esconfGetAllProperties (backends : List S) (channel propertyBase : CString) :
    Option (Except GError (CString → Option GVariant) × List S) :=
  match getAllFrom interface channel propertyBase backends with
  | none => none
  | some (inserted, true, _, backends) =>
    (esconfHashToGvariant host inserted).map fun table => (.ok table, backends)
  | some (_, false, error, backends) => some (.error (error.getD internalError), backends)

/-- Channels, each a map from the names of properties to values. -/
structure Store where
  channels : CString → Option (AList fun _ : CString => GValue)

namespace Store

def value (store : Store) (channel property : CString) : Option GValue :=
  ((store.channels channel).bind fun properties => properties.lookup property).filter
    GValue.isSet

def channelNotFound (channel : CString) : GError :=
  ⟨.esconf .channelNotFound, "Channel \"".toList ++ channel ++ "\" does not exist".toList⟩

def get (store : Store) (channel property : CString) : Option (Except GError GValue × Store) :=
  match store.channels channel, store.value channel property with
  | none, _ => some (.error (channelNotFound channel), store)
  | some _, some value => some (.ok value, store)
  | some _, none => some (.error (propertyNotFound property channel), store)

def below (propertyBase property : CString) : Bool :=
  propertyBase.length < 2 || property == propertyBase ||
    (propertyBase ++ "/".toList).isPrefixOf property

def getAll (store : Store) (channel propertyBase : CString) :
    Option (Except GError (List (CString × GValue)) × Store) :=
  match store.channels channel with
  | none => some (.error (channelNotFound channel), store)
  | some properties =>
    some (.ok ((properties.entries.map fun entry => (entry.1, entry.2)).filter fun entry =>
      entry.2.isSet && below propertyBase entry.1), store)

/-- A store behind the interface of a backend, with the given way to write and to lock. -/
def behind (set : Store → CString → CString → GValue → Option (Except GError Unit × Store))
    (isPropertyLocked : Store → CString → CString → Option (Except GError Bool × Store)) :
    BackendInterface Store where
  set := set
  get := get
  getAll := getAll
  isPropertyLocked := isPropertyLocked

end Store

section Found

variable {host : Host}
  {set : Store → CString → CString → GValue → Option (Except GError Unit × Store)}
  {lock : Store → CString → CString → Option (Except GError Bool × Store)}
  {channel property : CString}

def valuesOf (stores : List Store) (channel property : CString) : List GValue :=
  stores.filterMap fun store => store.value channel property

theorem guarded_names {α S : Type} (backend : S)
    (channelValid : esconfChannelIsValid channel = none)
    (propertyValid : esconfPropertyIsValid property = none)
    (call : Option (Except GError α × S)) :
    guarded backend [internalUnless (!channel.isEmpty && !property.isEmpty),
      esconfChannelIsValid channel, esconfPropertyIsValid property] call = call := by
  have full : (!channel.isEmpty && !property.isEmpty) = true := by
    cases channel with
    | nil => cases channelValid
    | cons c rest =>
        cases property with
        | nil => cases propertyValid
        | cons d later => rfl
  rw [full, channelValid, propertyValid]
  rfl

/-- GetProperty sends the value of the first backend that has one. -/
theorem getFrom_stores (channelValid : esconfChannelIsValid channel = none)
    (propertyValid : esconfPropertyIsValid property = none) (error : GError)
    (stores : List Store) :
    ∃ failure, getFrom host (Store.behind set lock) channel property error stores =
      some (((valuesOf stores channel property).head?.map (replyValue host)).getD
        (.error failure), stores) := by
  induction stores generalizing error with
  | nil => exact ⟨error, rfl⟩
  | cons store rest ih =>
      have guard : esconfBackendGet (Store.behind set lock) store channel property =
          store.get channel property := guarded_names store channelValid propertyValid _
      rw [getFrom, guard, Store.get, valuesOf, List.filterMap_cons]
      cases there : store.channels channel with
      | none =>
          have none : store.value channel property = none := by simp [Store.value, there]
          obtain ⟨failure, later⟩ := ih (Store.channelNotFound channel)
          refine ⟨failure, ?_⟩
          rw [none]
          dsimp only
          rw [later]
          rfl
      | some properties =>
          cases held : store.value channel property with
          | none =>
              obtain ⟨failure, later⟩ := ih (propertyNotFound property channel)
              refine ⟨failure, ?_⟩
              dsimp only
              rw [later]
              rfl
          | some value => exact ⟨error, rfl⟩

theorem last_entries {store : Store} {properties : AList fun _ : CString => GValue}
    (there : store.channels channel = some properties) :
    last ((properties.entries.map fun entry => (entry.1, entry.2)).filter fun entry =>
      entry.2.isSet && Store.below "/".toList entry.1) property =
        store.value channel property := by
  have all : ∀ name, Store.below "/".toList name = true := fun _ => rfl
  have mem : ∀ key value, (key, value) ∈ ((properties.entries.map fun entry =>
      (entry.1, entry.2)).filter fun entry => entry.2.isSet && Store.below "/".toList entry.1) ↔
        properties.lookup key = some value ∧ value.isSet = true := by
    intro key value
    rw [List.mem_filter, List.mem_map, all, Bool.and_true]
    constructor
    · intro found
      obtain ⟨⟨entry, member, same⟩, isSet⟩ := found
      cases same
      exact ⟨AList.mem_lookup_iff.mpr member, isSet⟩
    · intro found
      exact ⟨⟨⟨key, value⟩, AList.mem_lookup_iff.mp found.1, rfl⟩, found.2⟩
  have single : ∀ key first second, (key, first) ∈ ((properties.entries.map fun entry =>
      (entry.1, entry.2)).filter fun entry => entry.2.isSet && Store.below "/".toList entry.1) →
      (key, second) ∈ ((properties.entries.map fun entry =>
        (entry.1, entry.2)).filter fun entry => entry.2.isSet && Store.below "/".toList entry.1) →
      first = second := by
    intro key first second one two
    have same := ((mem key first).mp one).1.symm.trans ((mem key second).mp two).1
    exact Option.some.inj same
  apply Option.ext
  intro value
  rw [last_eq_some single, mem]
  simp [Store.value, there, Option.filter_eq_some_iff]

theorem guarded_channel {α : Type} (store : Store)
    (channelValid : esconfChannelIsValid channel = none)
    (call : Option (Except GError α × Store)) :
    guarded store [internalUnless (!channel.isEmpty), esconfChannelIsValid channel,
      baseIsValid "/".toList] call = call := by
  cases channel with
  | nil => cases channelValid
  | cons c rest =>
      rw [channelValid]
      rfl

/-- GetAllProperties is left with the value of the last backend that has one. -/
theorem getAllFrom_stores (channelValid : esconfChannelIsValid channel = none)
    (stores : List Store) :
    ∃ inserted succeed error, getAllFrom (Store.behind set lock) channel "/".toList stores =
        some (inserted, succeed, error, stores) ∧
      ∀ property, hashTable inserted property =
        (valuesOf stores channel property).getLast? := by
  induction stores with
  | nil => exact ⟨[], false, none, rfl, fun _ => rfl⟩
  | cons store rest ih =>
      obtain ⟨inserted, succeed, error, later, table⟩ := ih
      have guard : esconfBackendGetAll (Store.behind set lock) store channel "/".toList =
          store.getAll channel "/".toList := guarded_channel store channelValid _
      rw [getAllFrom, guard, Store.getAll]
      cases there : store.channels channel with
      | none =>
          dsimp only
          rw [later]
          refine ⟨_, _, _, rfl, ?_⟩
          intro property
          have none : store.value channel property = none := by simp [Store.value, there]
          rw [table, valuesOf, valuesOf, List.filterMap_cons, none]
      | some properties =>
          dsimp only
          rw [later]
          refine ⟨_, _, _, rfl, ?_⟩
          intro property
          have before : hashTable inserted property =
              (valuesOf rest channel property).getLast? := table property
          rw [hashTable] at before ⊢
          rw [last_append, before, last_entries there, valuesOf, valuesOf, List.filterMap_cons]
          cases store.value channel property with
          | none => rw [Option.or_none]
          | some value =>
              cases List.filterMap (fun store => store.value channel property) rest with
              | nil => rfl
              | cons next others =>
                  rw [List.getLast?_cons_cons, List.getLast?_eq_some_getLast (by simp),
                    Option.some_or]

def hollow (host : Host) : GValue → Bool
  | .ptrArray elements =>
    !elements.isEmpty && (elements.filterMap (esconfBasicGvalueToGvariant host)).isEmpty
  | _ => false

theorem esconfGvalueToGvariant_table (value : GValue) :
    esconfGvalueToGvariant host value =
      if hollow host value then none else tableVariant host value := by
  cases value with
  | ptrArray elements =>
      cases elements with
      | nil => rfl
      | cons first rest =>
          cases sent : List.filterMap (esconfBasicGvalueToGvariant host) (first :: rest) with
          | nil => simp [esconfGvalueToGvariant, hollow, sent]
          | cons variant others => simp [esconfGvalueToGvariant, hollow, tableVariant, sent]
  | _ => rfl

theorem replyValue_ok {value : GValue} {variant : GVariant} :
    replyValue host value = .ok variant ↔ esconfGvalueToGvariant host value = some variant := by
  unfold replyValue
  cases esconfGvalueToGvariant host value <;> simp

/-- The first and the last backend that have a property have it with values that are sent
alike, and the first value is no hollow array, unless neither can be sent. -/
def AgreeingEnds (host : Host) (values : List GValue) : Prop :=
  ∀ first last, values.head? = some first → values.getLast? = some last →
    if hollow host first then tableVariant host last = none
    else tableVariant host first = tableVariant host last

/-- The two methods agree on a property exactly if the first and the last backend with the
property do. -/
theorem read_paths_agree_iff (host : Host)
    (set : Store → CString → CString → GValue → Option (Except GError Unit × Store))
    (lock : Store → CString → CString → Option (Except GError Bool × Store))
    (stores after : List Store) (channel property : CString)
    (table : CString → Option GVariant)
    (channelValid : esconfChannelIsValid channel = none)
    (propertyValid : esconfPropertyIsValid property = none)
    (all : esconfGetAllProperties host (Store.behind set lock) stores channel "/".toList =
      some (.ok table, after)) :
    (∀ variant, table property = some variant ↔
      (esconfGetProperty host (Store.behind set lock) stores channel property).map Prod.fst =
        some (.ok variant)) ↔
      AgreeingEnds host (valuesOf stores channel property) := by
  obtain ⟨failure, got⟩ := @getFrom_stores host set lock channel property channelValid
    propertyValid internalError stores
  obtain ⟨inserted, succeed, error, merged, entries⟩ :=
    @getAllFrom_stores set lock channel channelValid stores
  -- The table is left with the value of the last backend, the reply has that of the first.
  have held : table property =
      (valuesOf stores channel property).getLast?.bind (tableVariant host) := by
    rw [esconfGetAllProperties, merged] at all
    cases succeed with
    | false => cases all
    | true =>
        obtain ⟨made, converted, same⟩ := Option.map_eq_some_iff.mp all
        cases same
        unfold esconfHashToGvariant at converted
        split at converted
        · cases converted
        · cases converted
          change (hashTable inserted property).bind _ = _
          rw [entries]
  rw [esconfGetProperty, got, held, Option.map_some]
  cases values : valuesOf stores channel property with
  | nil => simp [AgreeingEnds]
  | cons first rest =>
      obtain ⟨last, ends⟩ : ∃ last, (first :: rest).getLast? = some last :=
        ⟨_, List.getLast?_eq_some_getLast (by simp)⟩
      have asked : ∀ variant, some (((some first).map (replyValue host)).getD (.error failure)) =
          some (Except.ok variant) ↔
            (if hollow host first then none else tableVariant host first) = some variant := by
        intro variant
        rw [Option.map_some, Option.getD_some, Option.some.injEq, replyValue_ok,
          esconfGvalueToGvariant_table]
      rw [AgreeingEnds, ends, List.head?_cons, Option.bind_some]
      simp only [asked, Option.some.injEq]
      constructor
      · intro agree one two here there
        subst here there
        have same := Option.ext agree
        split
        · next empty => rw [same, if_pos empty]
        · next full => rw [same, if_neg full]
      · intro ends' variant
        have same := ends' first last rfl rfl
        split at same
        · next empty => rw [if_pos empty, same]
        · next full => rw [if_neg full, same]

end Found

def Store.single (property : CString) (value : GValue) : Store where
  channels := fun channel => if channel = "c".toList then some (AList.singleton property value) else none

def readOnly : BackendInterface Store := Store.behind (fun _ _ _ _ => none) fun _ _ _ => none

/-- Of two backends with a property, the first answers GetProperty and the second
GetAllProperties; and a single array of floats is an empty array for the latter only. -/
theorem read_paths_differ :
    (∃ table after, esconfGetAllProperties (Host.bare []) readOnly
        [.single "/a".toList (.int 1), .single "/a".toList (.int 2)] "c".toList "/".toList =
          some (.ok table, after) ∧
      ¬∀ variant, table "/a".toList = some variant ↔
        (esconfGetProperty (Host.bare []) readOnly
          [.single "/a".toList (.int 1), .single "/a".toList (.int 2)] "c".toList
          "/a".toList).map Prod.fst = some (.ok variant)) ∧
      ∃ table after, esconfGetAllProperties (Host.bare []) readOnly
          [.single "/a".toList (.ptrArray [.float 0])] "c".toList "/".toList =
            some (.ok table, after) ∧
        ¬∀ variant, table "/a".toList = some variant ↔
          (esconfGetProperty (Host.bare []) readOnly
            [.single "/a".toList (.ptrArray [.float 0])] "c".toList "/a".toList).map Prod.fst =
              some (.ok variant) := by
  constructor
  · refine ⟨_, _, rfl, ?_⟩
    intro agree
    cases (agree (.int32 2)).mp rfl
  · refine ⟨_, _, rfl, ?_⟩
    intro agree
    cases (agree (.variants [])).mp rfl

theorem read_paths_agree_apart :
    ∃ table after, esconfGetAllProperties (Host.bare []) readOnly
        [.single "/a".toList (.int 1), .single "/b".toList (.int 2)] "c".toList "/".toList =
          some (.ok table, after) ∧
      ∀ variant, table "/a".toList = some variant ↔
        (esconfGetProperty (Host.bare []) readOnly
          [.single "/a".toList (.int 1), .single "/b".toList (.int 2)] "c".toList
          "/a".toList).map Prod.fst = some (.ok variant) := by
  refine ⟨_, _, rfl, ?_⟩
  apply (read_paths_agree_iff (Host.bare []) (fun _ _ _ _ => none) (fun _ _ _ => none)
    [.single "/a".toList (.int 1), .single "/b".toList (.int 2)] _ "c".toList "/a".toList _
    (by decide) (by decide) rfl).mpr
  intro first last one two
  cases one
  cases two
  rfl

end Esconf.Daemon
