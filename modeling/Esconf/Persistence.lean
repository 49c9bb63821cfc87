import Esconf.WritableTrees
import Esconf.SaveRuns
import Esconf.GVariant
import Esconf.Library.Assignments

/-! SetProperty requests on one channel, and what a flush of the channel brings to
the disk after them. -/

namespace Esconf

open NamedTree Assignments

variable (host : Host)

/-- `esconf_set_property` of a daemon with one backend. Unsetting the GValue of a
variant that has none ends the daemon. -/
def esconfSetProperty (xbpx : EsconfBackendPerchannelXml) (channel property : CString)
    (variant : GVariant) : Answer Unit :=
  match esconfGvariantToGvalue variant with
  | none => none
  | some value => esconfBackendSet host xbpx channel property value

def logged {ε : Type} (log : List (CString × GValue)) (property : CString) (value : GValue) :
    Except ε Unit → List (CString × GValue)
  | .ok () => log ++ [(property, value)]
  | .error _ => log

def accept (log : List (CString × GValue)) (property : CString) (variant : GVariant)
    (answer : Except (Option GError) Unit) : List (CString × GValue) :=
  match esconfGvariantToGvalue variant with
  | some value => logged log property value answer
  | none => log

/-- The runs of requests on a channel and flushes of it in which no file operation
fails, with the values that were set. -/
inductive SetRun (channelName : CString)
    (condition : EsconfBackendPerchannelXml → CString → GVariant → Prop)
    (start : EsconfBackendPerchannelXml) :
    List (CString × GValue) → EsconfBackendPerchannelXml → Prop where
  | start : SetRun channelName condition start [] start
  | set {log : List (CString × GValue)} {xbpx after : EsconfBackendPerchannelXml}
      {answer : Except (Option GError) Unit} (property : CString) (variant : GVariant)
      (run : SetRun channelName condition start log xbpx)
      (meets : condition xbpx property variant)
      (performed : esconfSetProperty host xbpx channelName property variant =
        some (answer, after)) :
      SetRun channelName condition start (accept log property variant answer) after
  | flush {log : List (CString × GValue)} {xbpx after : EsconfBackendPerchannelXml}
      {error : Option GError} {left : Device} (schedule : Schedule) (device : Device)
      (run : SetRun channelName condition start log xbpx) (reliable : Reliable schedule)
      (flushed : flushChannel host schedule xbpx channelName device =
        .returned error after left) :
      SetRun channelName condition start log after

def isPlain : GValue → Bool
  | .string (some _) | .boolean _ | .uchar _ | .int _ | .uint _ | .int64 _ | .uint64 _ => true
  | _ => false

/-- The channel is loaded once a value was set, and flushing it, if no file operation
fails, succeeds and writes every property whose last value is plain. -/
def SavesAccepted (channelName : CString) (log : List (CString × GValue))
    (xbpx : EsconfBackendPerchannelXml) : Prop :=
  (log = [] ∨ ∃ channel, xbpx.channels.lookup channelName = some channel) ∧
    ∀ channel schedule device, xbpx.channels.lookup channelName = some channel →
      Reliable schedule →
      ∃ text after left,
        flushChannel host schedule xbpx channelName device = .returned none after left ∧
        flushText host channelName channel.properties = .ok text ∧
        after.disk (userFileName xbpx channelName) = some text ∧
        ∀ property value, last log property = some value → isPlain value = true →
          (channel.properties.slot (nameParts property)).value = value ∧
            NamesProperty host text (pastLastSlash property) value

def CanBeWritten (channelName : CString) (xbpx middle : EsconfBackendPerchannelXml) : Prop :=
  ∀ key channel, findChannel host xbpx channelName = some (.ok (key, channel), middle) →
    flushableAll 1 channel.properties.children = true

def basicElements (variant : GVariant) : Bool :=
  match unboxed variant with
  | .variants elements =>
    elements.all fun element => (esconfBasicGvariantToGvalue (unboxed element)).isSome
  | _ => true

/-- A request whose elements have basic types and whose property has a short name,
with a value that is not the default in effect already. -/
structure Storable (channelName : CString) (xbpx : EsconfBackendPerchannelXml)
    (property : CString) (variant : GVariant) : Prop where
  basic : basicElements variant = true
  short : property.length < maxPropPath
  changes : ∀ value key channel middle, esconfGvariantToGvalue variant = some value →
    isPlain value = true →
    findChannel host xbpx channelName = some (.ok (key, channel), middle) →
    (channel.properties.slot (nameParts property)).value = .invalid →
    (channel.properties.slot (nameParts property)).systemValue ≠ value

variable {host}

theorem isPlain_isEqual {first value : GValue} (plain : isPlain value = true)
    (equal : GValue.isEqual first value = true) : first = value := by
  have same := GValue.isEqual_gtype equal
  unfold GValue.isEqual at equal
  rw [if_neg (not_not.mpr same)] at equal
  cases value <;> first | (exact absurd plain Bool.false_ne_true) | skip
  all_goals cases first <;> first | (cases same; done) | skip
  all_goals exact congrArg _ (LawfulBEq.eq_of_beq equal)

theorem isPlain_isSet {value : GValue} (plain : isPlain value = true) : value ≠ .invalid := by
  intro unset
  rw [unset] at plain
  cases plain

theorem isPlain_formatted {value : GValue} (plain : isPlain value = true) :
    formattedValue value = value := by
  cases value <;> first | rfl | cases plain

theorem isPlain_written (host : Host) {value : GValue} (plain : isPlain value = true) :
    ∃ tag, formatXmlValue host value = some tag := by
  apply Option.isSome_iff_exists.mp
  rw [formatXmlValue_isSome]
  cases value <;> first | rfl | cases plain

theorem basicValue_known {variant : GVariant} {value : GValue}
    (decoded : esconfBasicGvariantToGvalue variant = some value) : knownType value = true := by
  cases variant <;> cases decoded <;> rfl

theorem basicElements_formattable {variant : GVariant} {value : GValue}
    (basic : basicElements variant = true)
    (decoded : esconfGvariantToGvalue variant = some value) : formattable value = true := by
  rw [esconfGvariantToGvalue_unboxed] at decoded
  unfold basicElements at basic
  cases inner : unboxed variant with
  | variants elements =>
      rw [inner] at basic decoded
      cases decoded
      rw [formattable, List.all_map, List.all_eq_true]
      intro element member
      have some := List.all_eq_true.mp basic element member
      obtain ⟨value, same⟩ := Option.isSome_iff_exists.mp some
      rw [Function.comp, elementValue_unboxed, same]
      exact basicValue_known same
  | _ =>
      rw [inner] at decoded
      cases decoded <;> rfl

theorem formattedTree_slot {properties : PropTree} {path : List CString} (full : path ≠ []) :
    ((formattedTree properties).slot path).value =
      formattedValue (properties.slot path).value := by
  cases path with
  | nil => exact absurd rfl full
  | cons name rest =>
      obtain ⟨key, prop, children⟩ := properties
      have mapped := descend_mapData formattedProperty (.node key prop children) (name :: rest)
      have same : descend (formattedTree (.node key prop children)) (name :: rest) =
          descend (mapData formattedProperty (.node key prop children)) (name :: rest) := rfl
      unfold PropTree.slot lookup
      rw [same, mapped]
      cases descend (.node key prop children) (name :: rest) with
      | none => rfl
      | some sub =>
          change (mapData formattedProperty sub).data.value = formattedValue sub.data.value
          rw [mapData_data]
          rfl

theorem slot_root_systemValue (path : List CString) :
    (PropTree.root.slot path).systemValue = .invalid := by
  cases path <;> rfl

theorem setIn_outcome (xbpx : EsconfBackendPerchannelXml) (key : CString)
    (channel : EsconfChannel) (channelName : CString) {property : CString} (value : GValue)
    (accepted : esconfPropertyIsValid property = none) (short : property.length < maxPropPath) :
    (∃ error, setIn xbpx key channel channelName property value = (.error error, xbpx)) ∨
      (setIn xbpx key channel channelName property value = (.ok (), xbpx) ∧
        GValue.isEqual (channel.properties.slot (nameParts property)).effective value = true) ∨
      ∃ properties, setIn xbpx key channel channelName property value =
          (.ok (), (xbpx.propChanged channelName property).scheduleSave key
            { channel with properties }) ∧
        (∀ path, properties.slot path =
          if path = nameParts property then (channel.properties.slot path).withValue value
          else channel.properties.slot path) ∧
        (formattable value = true → flushableAll 1 channel.properties.children = true →
          flushableAll 1 properties.children = true) ∧
        Grown [nameParts property] channel.properties properties := by
  have valid := propNameIsValid_of_property accepted
  unfold setIn
  cases looked : proptreeLookup channel.properties property with
  | some prop =>
      have here := proptreeLookup_slot looked
      obtain ⟨_, node, found, _⟩ := proptreeLookup_some.mp looked
      dsimp only
      split
      · exact Or.inl ⟨_, rfl⟩
      split
      · next same =>
          rw [here]
          exact Or.inr (Or.inl ⟨rfl, same⟩)
      · have same : Grown [nameParts property] channel.properties channel.properties :=
          ⟨id, fun _ there => Or.inl there⟩
        refine Or.inr (Or.inr ⟨_, rfl, ?_, ?_, same.trans (Grown.update _ _ _)⟩)
        · intro path
          rw [slot_update, found]
          by_cases same : path = nameParts property
          · rw [if_pos ⟨same, rfl⟩, if_pos same, same]
          · rw [if_neg fun both => same both.1, if_neg same]
        · intro known written
          exact flushableAll_update (nameParts_ne_nil valid) written fun _ => known
  | none =>
      have blank := proptreeLookup_none_slot valid looked
      obtain ⟨grown, done, _, slots, _⟩ := proptreeAddProperty_spec value false valid short looked
      refine Or.inr (Or.inr ⟨grown, ?_, ?_, ?_, Grown.add valid short looked done⟩)
      · dsimp only
        rw [done]
        rfl
      · intro path
        rw [slots]
        split
        · next same =>
            rw [same, blank]
            rfl
        · rfl
      · intro known written
        exact flushableAll_addProperty valid (named_of_property accepted) short known written done

/-- What holds in a run: the channel can be written, and the last values that are plain
are in it. -/
structure Kept (host : Host) (channelName : CString) (log : List (CString × GValue))
    (xbpx : EsconfBackendPerchannelXml) : Prop where
  writable : ∀ middle, CanBeWritten host channelName xbpx middle
  stored : ∀ property value, last log property = some value →
    propNameIsValid property = true ∧ ∃ channel,
      xbpx.channels.lookup channelName = some channel ∧
      (isPlain value = true → (channel.properties.slot (nameParts property)).value = value)

section Steps

variable {channelName : CString} {log : List (CString × GValue)}
  {xbpx after : EsconfBackendPerchannelXml}

theorem Kept.loaded (kept : Kept host channelName log xbpx) {channel : EsconfChannel}
    (loaded : xbpx.channels.lookup channelName = some channel) :
    flushableAll 1 channel.properties.children = true :=
  kept.writable _ channelName channel (findChannel_loaded host loaded)

theorem kept_of_loaded (channel : EsconfChannel)
    (loaded : xbpx.channels.lookup channelName = some channel)
    (written : flushableAll 1 channel.properties.children = true)
    (stored : ∀ property value, last log property = some value →
      propNameIsValid property = true ∧
        (isPlain value = true → (channel.properties.slot (nameParts property)).value = value)) :
    Kept host channelName log xbpx := by
  constructor
  · intro middle key other found
    rw [findChannel_loaded host loaded] at found
    cases found
    exact written
  · intro property value recorded
    obtain ⟨valid, slot⟩ := stored property value recorded
    exact ⟨valid, channel, loaded, slot⟩

theorem setIn_kept {middle : EsconfBackendPerchannelXml} {channel : EsconfChannel}
    {property : CString} {value : GValue} {answer : Except GError Unit}
    (loaded : middle.channels.lookup channelName = some channel)
    (written : flushableAll 1 channel.properties.children = true)
    (stored : ∀ property value, last log property = some value →
      propNameIsValid property = true ∧
        (isPlain value = true → (channel.properties.slot (nameParts property)).value = value))
    (accepted : esconfPropertyIsValid property = none) (short : property.length < maxPropPath)
    (known : formattable value = true)
    (changes : isPlain value = true →
      (channel.properties.slot (nameParts property)).value = .invalid →
      (channel.properties.slot (nameParts property)).systemValue ≠ value)
    (done : setIn middle channelName channel channelName property value = (answer, after)) :
    Kept host channelName (logged log property value answer) after := by
  have valid := propNameIsValid_of_property accepted
  have recorded : ∀ properties : PropTree,
      (∀ path, path ≠ nameParts property →
        (properties.slot path).value = (channel.properties.slot path).value) →
      (isPlain value = true → (properties.slot (nameParts property)).value = value) →
      ∀ other otherValue, last (log ++ [(property, value)]) other = some otherValue →
        propNameIsValid other = true ∧
          (isPlain otherValue = true →
            (properties.slot (nameParts other)).value = otherValue) := by
    intro properties others here other otherValue recent
    by_cases same : other = property
    · subst same
      rw [last_append, last_singleton, if_pos rfl] at recent
      cases recent
      exact ⟨valid, here⟩
    · rw [last_append, last_singleton, if_neg (Ne.symm same)] at recent
      obtain ⟨otherValid, slot⟩ := stored other otherValue recent
      refine ⟨otherValid, ?_⟩
      intro plain
      rw [others _ fun parts => same (nameParts_inj otherValid valid parts)]
      exact slot plain
  rcases setIn_outcome middle channelName channel channelName value accepted short with
    ⟨error, refused⟩ | ⟨same, equal⟩ | ⟨properties, changed, slots, keeps, _⟩
  · rw [refused] at done
    cases done
    exact kept_of_loaded _ loaded written stored
  · rw [same] at done
    cases done
    apply kept_of_loaded _ loaded written
    apply recorded channel.properties (fun _ _ => rfl)
    intro plain
    have effective := isPlain_isEqual plain equal
    unfold EsconfProperty.effective at effective
    split at effective
    · exact effective
    · next unset =>
        have none := GValue.isSet_eq_false.mp (Bool.eq_false_iff.mpr unset)
        exact absurd effective (changes plain none)
  · rw [changed] at done
    cases done
    apply kept_of_loaded { channel with properties, dirty := true }
    · rw [EsconfBackendPerchannelXml.scheduleSave_channels, AList.lookup_insert]
    · exact keeps known written
    · apply recorded properties
      · intro path apart
        rw [slots, if_neg apart]
      · intro _
        rw [slots, if_pos rfl]
        rfl

theorem findChannel_found (lower : gAsciiStrdown channelName = channelName) {key : CString}
    {channel : EsconfChannel} {middle : EsconfBackendPerchannelXml}
    (done : findChannel host xbpx channelName = some (.ok (key, channel), middle)) :
    key = channelName ∧ middle.channels.lookup channelName = some channel ∧
      ∀ other, xbpx.channels.lookup channelName = some other → other = channel := by
  unfold findChannel at done
  split at done
  · next entry loaded =>
      cases done
      refine ⟨rfl, loaded, ?_⟩
      intro other found
      exact Option.some.inj (found.symm.trans loaded)
  · next missing =>
      split at done
      · cases done
      · cases done
      · cases done
        rw [lower]
        refine ⟨rfl, AList.lookup_insert _, ?_⟩
        intro other found
        rw [missing] at found
        cases found

theorem set_kept (lower : gAsciiStrdown channelName = channelName)
    (kept : Kept host channelName log xbpx) {property : CString} {value : GValue}
    {answer : Except GError Unit} (accepted : esconfPropertyIsValid property = none)
    (short : property.length < maxPropPath) (known : formattable value = true)
    (changes : ∀ key channel middle, isPlain value = true →
      findChannel host xbpx channelName = some (.ok (key, channel), middle) →
      (channel.properties.slot (nameParts property)).value = .invalid →
      (channel.properties.slot (nameParts property)).systemValue ≠ value)
    (done : perchannelXmlSet host xbpx channelName property value = some (answer, after)) :
    Kept host channelName (logged log property value answer) after := by
  have stored : ∀ channel : EsconfChannel,
      (∀ other, xbpx.channels.lookup channelName = some other → other = channel) →
      ∀ property value, last log property = some value →
        propNameIsValid property = true ∧
          (isPlain value = true → (channel.properties.slot (nameParts property)).value = value) := by
    intro channel only property value recorded
    obtain ⟨valid, other, loaded, slot⟩ := kept.stored property value recorded
    rw [← only other loaded]
    exact ⟨valid, slot⟩
  rcases perchannelXmlSet_cases host done with
    ⟨key, channel, middle, looked, here⟩ | ⟨error, middle, looked, here⟩
  · obtain ⟨same, loaded, only⟩ := findChannel_found lower looked
    subst same
    apply setIn_kept loaded (kept.writable middle _ channel looked) (stored channel only)
      accepted short known
    · intro plain
      exact changes _ channel middle plain looked
    · exact here.symm
  · have missing : xbpx.channels.lookup channelName = none := by
      cases loaded : xbpx.channels.lookup channelName with
      | none => rfl
      | some channel =>
          rw [findChannel_loaded host loaded] at looked
          cases looked
    have created : (middle.store channelName .root).channels.lookup channelName =
        some .root := AList.lookup_insert _
    rw [lower] at here
    apply setIn_kept created (by decide) _ accepted short known _ here.symm
    · apply stored
      intro other found
      rw [missing] at found
      cases found
    · intro plain _ same
      have root : (EsconfChannel.root.properties.slot (nameParts property)).systemValue =
          .invalid := slot_root_systemValue _
      exact isPlain_isSet plain (same.symm.trans root)

theorem setProperty_kept (lower : gAsciiStrdown channelName = channelName)
    (kept : Kept host channelName log xbpx) {property : CString} {variant : GVariant}
    {answer : Except (Option GError) Unit}
    (storable : Storable host channelName xbpx property variant)
    (performed : esconfSetProperty host xbpx channelName property variant =
      some (answer, after)) :
    Kept host channelName (accept log property variant answer) after := by
  unfold esconfSetProperty at performed
  cases decoded : esconfGvariantToGvalue variant with
  | none =>
      rw [decoded] at performed
      cases performed
  | some value =>
      rw [decoded] at performed
      rcases guarded_cases performed with ⟨error, refused⟩ | ⟨clear, inner, done, same⟩
      · cases refused
        rw [accept, decoded]
        exact kept
      · obtain ⟨result, reached⟩ := inner
        cases same
        have accepted : esconfPropertyIsValid property = none := by
          have checks := List.findSome?_eq_none_iff.mp clear
          exact checks _ (List.mem_cons_of_mem _ List.mem_cons_self)
        have next := set_kept lower kept accepted storable.short
          (basicElements_formattable storable.basic decoded)
          (fun key channel middle plain => storable.changes value key channel middle decoded plain)
          done
        rw [accept, decoded]
        cases result <;> exact next

theorem flush_kept (kept : Kept host channelName log xbpx) {schedule : Schedule}
    (reliable : Reliable schedule) {channel : EsconfChannel}
    (loaded : xbpx.channels.lookup channelName = some channel) (device : Device) :
    ∃ text after left,
      flushChannel host schedule xbpx channelName device = .returned none after left ∧
      flushText host channelName channel.properties = .ok text ∧
      after.disk (userFileName xbpx channelName) = some text ∧
      Kept host channelName log after := by
  have written := kept.loaded loaded
  obtain ⟨text, done⟩ := flushText_of_flushable host written channelName
  obtain ⟨after, left, flushed, flushes⟩ :=
    flushChannel_reliable reliable loaded done device
  obtain ⟨same, text', loaded', done', entry, published⟩ :=
    flushes.flushed channelName (by simp)
  rw [loaded] at loaded'
  cases loaded'
  rw [done] at done'
  cases done'
  refine ⟨text, after, left, flushed, done, published, ?_⟩
  apply kept_of_loaded _ entry
  · exact flushableAll_formatted (fun child _ => flushable_formatted child) written
  · intro property value recorded
    obtain ⟨valid, other, found, slot⟩ := kept.stored property value recorded
    rw [loaded] at found
    cases found
    refine ⟨valid, ?_⟩
    intro plain
    rw [formattedTree_slot (nameParts_ne_nil valid), slot plain]
    exact isPlain_formatted plain

/-- In every run of requests that can be stored, on a channel called by its name in lower
case that could be written to begin with, every flush succeeds and writes every
property whose last value is plain. -/
theorem storable_run_saves (host : Host) (channelName : CString)
    (lower : gAsciiStrdown channelName = channelName)
    (start xbpx : EsconfBackendPerchannelXml)
    (writable : ∀ middle, CanBeWritten host channelName start middle)
    (log : List (CString × GValue))
    (run : SetRun host channelName (Storable host channelName) start log xbpx) :
    SavesAccepted host channelName log xbpx := by
  -- The invariant of the run; what is saved is read off the state it leads to.
  have kept : Kept host channelName log xbpx := by
    induction run with
    | start => exact ⟨writable, nofun⟩
    | set property variant run storable performed ih =>
        exact setProperty_kept lower ih storable performed
    | @flush log xbpx after error left schedule device run reliable flushed ih =>
        cases loaded : xbpx.channels.lookup channelName with
        | none =>
            rw [flushChannel, loaded] at flushed
            cases flushed
            exact ih
        | some channel =>
            obtain ⟨text, other, left', done, _, _, next⟩ := flush_kept ih reliable loaded device
            rw [done] at flushed
            cases flushed
            exact next
  constructor
  · rcases List.eq_nil_or_concat log with empty | ⟨front, entry, same⟩
    · exact Or.inl empty
    · obtain ⟨property, value⟩ := entry
      have recorded : last log property = some value := by
        rw [same, List.concat_eq_append, last_append, last_singleton, if_pos rfl]
        rfl
      obtain ⟨_, channel, loaded, _⟩ := kept.stored property value recorded
      exact Or.inr ⟨channel, loaded⟩
  · intro channel schedule device loaded reliable
    obtain ⟨text, after, left, flushed, written, published, _⟩ :=
      flush_kept kept reliable loaded device
    refine ⟨text, after, left, flushed, written, published, ?_⟩
    intro property value recorded plain
    obtain ⟨valid, other, found, slot⟩ := kept.stored property value recorded
    rw [loaded] at found
    cases found
    refine ⟨slot plain, ?_⟩
    obtain ⟨tag, formatted⟩ := isPlain_written host plain
    rcases List.eq_nil_or_concat (nameParts property) with none | ⟨front, name, parts⟩
    · exact absurd none (nameParts_ne_nil valid)
    · rw [List.concat_eq_append] at parts
      have tip : pastLastSlash property = name := by
        have plainParts := nameParts_plain property
        rw [parts] at plainParts
        rw [← partsName_nameParts valid, parts]
        exact pastLastSlash_snoc front name (plainParts name (by simp))
      rw [tip]
      have here := slot plain
      rw [parts] at here
      exact flushText_names written here formatted

end Steps

section Refused

def unknownElement : GVariant := .variants [.variant (.other 0)]

/-- The array is accepted, as is the value of another property; then the flush is refused
and nothing is written. -/
theorem array_blocks_flush : ∃ log xbpx error after left,
    (∀ middle, CanBeWritten homeHost "c".toList homeBackend middle) ∧
      SetRun homeHost "c".toList (fun _ _ _ => True) homeBackend log xbpx ∧
      log = [("/a".toList, .ptrArray [.invalid]), ("/b".toList, .int 5)] ∧
      flushChannel homeHost allDone xbpx "c".toList atStart = .returned (some error) after left ∧
      after.disk (userFileName xbpx "c".toList) = none ∧
      ¬SavesAccepted homeHost "c".toList log xbpx := by
  have ran : ∃ first xbpx channel error after left,
      esconfSetProperty homeHost homeBackend "c".toList "/a".toList unknownElement =
        some (.ok (), first) ∧
      esconfSetProperty homeHost first "c".toList "/b".toList (.int32 5) = some (.ok (), xbpx) ∧
      xbpx.channels.lookup "c".toList = some channel ∧
      flushChannel homeHost allDone xbpx "c".toList atStart = .returned (some error) after left ∧
      after.disk (userFileName xbpx "c".toList) = none :=
    ⟨_, _, _, _, _, _, rfl, rfl, rfl, rfl, by decide⟩
  obtain ⟨first, xbpx, channel, error, after, left, one, two, loaded, flushed, missing⟩ := ran
  have writable : ∀ middle, CanBeWritten homeHost "c".toList homeBackend middle := by
    intro middle key channel found
    cases found
    rfl
  have run : SetRun homeHost "c".toList (fun _ _ _ => True) homeBackend
      [("/a".toList, .ptrArray [.invalid]), ("/b".toList, .int 5)] xbpx :=
    .set "/b".toList (.int32 5) (.set "/a".toList unknownElement .start trivial one) trivial two
  refine ⟨_, xbpx, error, after, left, writable, run, rfl, flushed, missing, ?_⟩
  intro saved
  obtain ⟨text, after', left', done, _⟩ := saved.2 channel allDone atStart loaded allDone_reliable
  rw [flushed] at done
  cases done

def basicElement : GVariant := .variants [.variant (.int32 1)]

theorem storable_run_saves_home : ∃ log xbpx,
    SetRun homeHost "c".toList (Storable homeHost "c".toList) homeBackend log xbpx ∧
      log = [("/a".toList, .ptrArray [.int 1]), ("/b".toList, .int 5)] ∧
      SavesAccepted homeHost "c".toList log xbpx := by
  have ran : ∃ first xbpx channel,
      esconfSetProperty homeHost homeBackend "c".toList "/a".toList basicElement =
        some (.ok (), first) ∧
      esconfSetProperty homeHost first "c".toList "/b".toList (.int32 5) = some (.ok (), xbpx) ∧
      first.channels.lookup "c".toList = some channel ∧
      (channel.properties.slot (nameParts "/b".toList)).systemValue = .invalid :=
    ⟨_, _, _, rfl, rfl, rfl, rfl⟩
  obtain ⟨first, xbpx, channel, one, two, loaded, unset⟩ := ran
  have storableArray : Storable homeHost "c".toList homeBackend "/a".toList basicElement := by
    refine ⟨rfl, by decide, ?_⟩
    intro value key channel middle decoded plain
    cases decoded
    cases plain
  have storableInt : Storable homeHost "c".toList first "/b".toList (.int32 5) := by
    refine ⟨rfl, by decide, ?_⟩
    intro value key other middle decoded plain found _ same
    rw [findChannel_loaded homeHost loaded] at found
    cases found
    rw [unset] at same
    exact isPlain_isSet plain same.symm
  have run : SetRun homeHost "c".toList (Storable homeHost "c".toList) homeBackend
      [("/a".toList, .ptrArray [.int 1]), ("/b".toList, .int 5)] xbpx :=
    .set "/b".toList (.int32 5) (.set "/a".toList basicElement .start storableArray one)
      storableInt two
  refine ⟨_, xbpx, run, rfl, ?_⟩
  apply storable_run_saves homeHost "c".toList (by decide) homeBackend xbpx _ _ run
  intro middle key other found
  cases found
  rfl

end Refused

end Esconf
