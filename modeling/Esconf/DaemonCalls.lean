import Esconf.GetAll
import Esconf.GValueFuncs
import Esconf.GVariant

/-! The D-Bus methods of the daemon, `esconfd/esconf-daemon.c`, over any number of backends. -/

namespace Esconf.Daemon

/-- The virtual functions of an `EsconfBackendInterface` that the methods below call, on the
state of a backend; `none` when the daemon does not survive the call. -/
structure BackendInterface (S : Type) where
  set : S → CString → CString → GValue → Option (Except GError Unit × S)
  get : S → CString → CString → Option (Except GError GValue × S)
  getAll : S → CString → CString → Option (Except GError (List (CString × GValue)) × S)
  isPropertyLocked : S → CString → CString → Option (Except GError Bool × S)

def perchannelXml (host : Host) : BackendInterface EsconfBackendPerchannelXml where
  set := perchannelXmlSet host
  get := perchannelXmlGet host
  getAll := perchannelXmlGetAll host
  isPropertyLocked := perchannelXmlIsPropertyLocked host

variable {S : Type}

/-- `esconf_backend_return_val_if_fail`. -/
def internalUnless (condition : Bool) : Option GError :=
  if condition then none else some internalError

/-- The checks of an `esconf_backend_*` function before the virtual function is called. -/
def guarded {α : Type} (backend : S) (errors : List (Option GError))
    (call : Option (Except GError α × S)) : Option (Except GError α × S) :=
  match errors.findSome? id with
  | some error => some (.error error, backend)
  | none => call

section Backend

variable (interface : BackendInterface S)

/-- `esconf_backend_set`, the value being a pointer that may be NULL. -/
def esconfBackendSet (backend : S) (channel property : CString) (value : Option GValue) :
    Option (Except GError Unit × S) :=
  match value with
  | none => some (.error internalError, backend)
  | some value =>
    guarded backend [internalUnless (!channel.isEmpty && !property.isEmpty),
      esconfChannelIsValid channel, esconfPropertyIsValid property]
      (interface.set backend channel property value)

/-- `esconf_backend_get`. -/
def esconfBackendGet (backend : S) (channel property : CString) :
    Option (Except GError GValue × S) :=
  guarded backend [internalUnless (!channel.isEmpty && !property.isEmpty),
    esconfChannelIsValid channel, esconfPropertyIsValid property]
    (interface.get backend channel property)

/-- `esconf_backend_get_all`. -/
def esconfBackendGetAll (backend : S) (channel propertyBase : CString) :
    Option (Except GError (List (CString × GValue)) × S) :=
  guarded backend [internalUnless (!channel.isEmpty), esconfChannelIsValid channel,
    baseIsValid propertyBase] (interface.getAll backend channel propertyBase)

/-- `esconf_backend_is_property_locked`. -/
def esconfBackendIsPropertyLocked (backend : S) (channel property : CString) :
    Option (Except GError Bool × S) :=
  guarded backend [esconfChannelIsValid channel, esconfPropertyIsValid property]
    (interface.isPropertyLocked backend channel property)

/-- What a method handler does: its return value, the replies it gives to the invocation,
the backends after it and the pointers it unsets and frees. -/
structure Handled (S : Type) where
  handled : Bool
  replies : List (Except GError Unit)
  backends : List S
  released : List (Option GValue)

/-- The loop of `esconf_set_property` over the backends: the error it ends with, if any. -/
def lockQueries (channel property : CString) : List S → Option (Option GError × List S)
  | [] => some (none, [])
  | backend :: rest =>
    match esconfBackendIsPropertyLocked interface backend channel property with
    | none => none
    | some (.error error, backend) => some (some error, backend :: rest)
    | some (.ok true, backend) => some (some (permissionDenied property channel), backend :: rest)
    | some (.ok false, backend) =>
      (lockQueries channel property rest).map fun later => (later.1, backend :: later.2)

/-- `esconf_set_property` of a daemon with the given first backend and the others. -/
def esconfSetProperty (first : S) (rest : List S) (channel property : CString)
    (variant : GVariant) : Option (Handled S) :=
  let queried :=
    -- A single backend is not asked for locks.
    if rest.isEmpty then some (none, [first])
    else lockQueries interface channel property (first :: rest)
  match queried with
  | none => none
  -- The error has been returned to the caller, and the handler says it has not handled it.
  | some (some error, backends) => some ⟨false, [.error error], backends, []⟩
  | some (none, backends) =>
    let value := esconfGvariantToGvalue variant
    (esconfBackendSet interface (backends.headD first) channel property value).map fun result =>
      ⟨true, [result.1], result.2 :: backends.tail, [value]⟩

end Backend

theorem esconfBackendSet_perchannelXml (host : Host) (xbpx : EsconfBackendPerchannelXml)
    (channel property : CString) (value : GValue) :
    Esconf.esconfBackendSet host xbpx channel property value =
      (esconfBackendSet (perchannelXml host) xbpx channel property (some value)).map
        fun result => (result.1.mapError some, result.2) := by
  have names : [channel, property].any List.isEmpty =
      !(!channel.isEmpty && !property.isEmpty) := by
    cases channel <;> cases property <;> rfl
  rw [Esconf.esconfBackendSet, returnIfEmpty, names, esconfBackendSet, guarded]
  cases !channel.isEmpty && !property.isEmpty with
  | false => rfl
  | true =>
      rw [Bool.not_true, if_neg Bool.false_ne_true, checked, internalUnless, if_pos rfl]
      cases esconfChannelIsValid channel with
      | some error => rfl
      | none => cases esconfPropertyIsValid property <;> rfl

/-- The one reply of a call is given by its handler, which does not touch what was never
produced. -/
structure AnswersOnce (outcome : Handled S) : Prop where
  reply : ∃ answer, outcome.replies = [answer]
  handled : outcome.handled = true
  released : ∀ pointer ∈ outcome.released, pointer.isSome = true

section SetProperty

variable (interface : BackendInterface S)

def asked (first : S) (rest : List S) (channel property : CString) : S :=
  if rest.isEmpty then first
  else match esconfBackendIsPropertyLocked interface first channel property with
    | some (_, first) => first
    | none => first

/-- The variant has a GValue, no backend is locked or fails to tell if there are several,
and the first backend survives the call. -/
structure Answerable (first : S) (rest : List S) (channel property : CString)
    (variant : GVariant) : Prop where
  decodes : (esconfGvariantToGvalue variant).isSome = true
  unlocked : rest ≠ [] → ∀ backend ∈ first :: rest,
    ∃ after, esconfBackendIsPropertyLocked interface backend channel property =
      some (.ok false, after)
  returns : (esconfBackendSet interface (asked interface first rest channel property) channel
    property (esconfGvariantToGvalue variant)).isSome = true

variable {interface} {channel property : CString}

theorem lockQueries_clear {backends : List S} :
    (∃ after, lockQueries interface channel property backends = some (none, after)) ↔
      ∀ backend ∈ backends, ∃ after,
        esconfBackendIsPropertyLocked interface backend channel property =
          some (.ok false, after) := by
  induction backends with
  | nil => simp [lockQueries]
  | cons backend rest ih =>
      rw [List.forall_mem_cons, ← ih, lockQueries]
      cases query : esconfBackendIsPropertyLocked interface backend channel property with
      | none => simp
      | some result =>
          obtain ⟨answer, after⟩ := result
          cases answer with
          | error error => simp
          | ok locked =>
              cases locked with
              | true => simp
              | false => simp [Option.map_eq_some_iff, Prod.ext_iff]

theorem lockQueries_head {first : S} {rest after : List S} (full : rest ≠ [])
    (clear : lockQueries interface channel property (first :: rest) = some (none, after)) :
    after.headD first = asked interface first rest channel property := by
  have several : rest.isEmpty = false := by simpa using full
  rw [asked, several, if_neg Bool.false_ne_true]
  rw [lockQueries] at clear
  cases query : esconfBackendIsPropertyLocked interface first channel property with
  | none => simp [query] at clear
  | some result =>
      obtain ⟨answer, first'⟩ := result
      rw [query] at clear
      cases answer with
      | error error => simp at clear
      | ok locked =>
          cases locked with
          | true => simp at clear
          | false =>
              obtain ⟨later, _, same⟩ := Option.map_eq_some_iff.mp clear
              rw [← (Prod.mk.inj same).2]
              rfl

/-- A SetProperty call is answered once by its handler exactly if it is answerable. -/
theorem set_property_answers_iff (interface : BackendInterface S) (first : S) (rest : List S)
    (channel property : CString) (variant : GVariant) :
    (∃ outcome, esconfSetProperty interface first rest channel property variant = some outcome ∧
      AnswersOnce outcome) ↔ Answerable interface first rest channel property variant := by
  unfold esconfSetProperty
  by_cases single : rest = []
  · subst single
    constructor
    · intro answered
      obtain ⟨outcome, done, once⟩ := answered
      obtain ⟨result, set, same⟩ := Option.map_eq_some_iff.mp done
      subst same
      exact ⟨once.released _ (List.mem_singleton_self _), fun several => absurd rfl several,
        by rw [Option.isSome_iff_exists]; exact ⟨result, set⟩⟩
    · intro answerable
      obtain ⟨result, set⟩ := Option.isSome_iff_exists.mp answerable.returns
      refine ⟨_, Option.map_eq_some_iff.mpr ⟨result, set, rfl⟩, ⟨result.1, rfl⟩, rfl, ?_⟩
      exact List.forall_mem_singleton.mpr answerable.decodes
  -- Each of several backends is asked for the lock first.
  · have several : rest.isEmpty = false := by simpa using single
    simp only [several, Bool.false_eq_true, ↓reduceIte]
    constructor
    · intro answered
      obtain ⟨outcome, done, once⟩ := answered
      cases queried : lockQueries interface channel property (first :: rest) with
      | none => simp [queried] at done
      | some queries =>
          obtain ⟨error, backends⟩ := queries
          rw [queried] at done
          cases error with
          | some error =>
              cases done
              cases once.handled
          | none =>
              obtain ⟨result, set, same⟩ := Option.map_eq_some_iff.mp done
              subst same
              rw [lockQueries_head single queried] at set
              exact ⟨once.released _ (List.mem_singleton_self _),
                fun _ => lockQueries_clear.mp ⟨backends, queried⟩,
                by rw [Option.isSome_iff_exists]; exact ⟨result, set⟩⟩
    · intro answerable
      obtain ⟨backends, queried⟩ := lockQueries_clear.mpr (answerable.unlocked single)
      obtain ⟨result, set⟩ := Option.isSome_iff_exists.mp answerable.returns
      rw [← lockQueries_head single queried] at set
      rw [queried]
      refine ⟨_, Option.map_eq_some_iff.mpr ⟨result, set, rfl⟩, ⟨result.1, rfl⟩, rfl, ?_⟩
      exact List.forall_mem_singleton.mpr answerable.decodes

def lockedBackend : EsconfBackendPerchannelXml :=
  (EsconfBackendPerchannelXml.idle ∅).store "c".toList
    ⟨.node "/".toList .blank [.node "a".toList ⟨.int 1, .invalid, true⟩ []], false, false⟩

/-- A variant without a GValue has NULL unset, and a lock among several backends is
reported and then denied to be handled. -/
theorem set_property_unanswered :
    (∃ outcome, esconfSetProperty (perchannelXml (Host.bare [])) (.idle ∅) [] "c".toList
        "/a".toList (.other 0) = some outcome ∧ outcome.released = [none] ∧
        ¬AnswersOnce outcome) ∧
      ∃ outcome, esconfSetProperty (perchannelXml (Host.bare [])) lockedBackend [lockedBackend]
        "c".toList "/a".toList (.int32 2) = some outcome ∧ outcome.handled = false ∧
        ¬AnswersOnce outcome := by
  constructor
  · refine ⟨_, rfl, rfl, ?_⟩
    intro once
    exact Bool.false_ne_true (once.released none (List.mem_singleton_self _))
  · refine ⟨_, rfl, rfl, ?_⟩
    intro once
    exact Bool.false_ne_true once.handled

end SetProperty

end Esconf.Daemon
