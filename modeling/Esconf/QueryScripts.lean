import Esconf.IntegerParsing
import Esconf.QueryEffects
import Esconf.SignalReplicas

/-! Runs of the command line tool one after another, and what they carry from one daemon to
another. -/

namespace Esconf.Client.Query

structure Command where
  surroundings : Surroundings
  options : Options

variable (host : Host)

def runAll : List Command → EsconfBackendPerchannelXml →
    Option (List Run × EsconfBackendPerchannelXml)
  | [], backend => some ([], backend)
  | command :: script, backend =>
    (main command.surroundings host (.ok command.options) backend).bind fun (run, backend) =>
      (runAll script backend).map fun (runs, backend) => (run :: runs, backend)

/-- Every run has had its effect on what the runs before it have left, or could not have any. -/
inductive Follows : PropMaps → List Command → List Run → PropMaps → Prop where
  | nil {maps : PropMaps} : Follows maps [] [] maps
  | done {maps maps' last : PropMaps} {command : Command} {script : List Command}
      {runs : List Run} {request : Request} {out : CString}
      (asks : command.options.asks = some request)
      (effect : Effect command.surroundings host command.options maps request maps' out)
      (rest : Follows maps' script runs last) :
      Follows maps (command :: script) (.exits .success out [] :: runs) last
  | failed {maps last : PropMaps} {command : Command} {script : List Command} {runs : List Run}
      {out err : CString}
      (impossible : ∀ request, command.options.asks = some request → ∀ maps' out',
        ¬Effect command.surroundings host command.options maps request maps' out')
      (rest : Follows maps script runs last) :
      Follows maps (command :: script) (.exits .failure out err :: runs) last

variable {host} {channelName : CString} {maps : PropMaps} {backend : EsconfBackendPerchannelXml}

/-- What `-t` takes for a type whose values come back from the bus. -/
def typeWord : GType → CString
  | .string => "string".toList
  | .uchar => "uchar".toList
  | .int => "int".toList
  | .uint => "uint".toList
  | .int64 => "int64".toList
  | .uint64 => "uint64".toList
  | .boolean => "bool".toList
  | _ => "empty".toList

def lineItems : GValue → List GValue
  | .ptrArray items => items
  | value => [value]

variable (host) in
def lineTexts (value : GValue) : List CString :=
  (lineItems value).map fun item => (stringFromGvalue host item).getD []

def heading : GValue → CString
  | .ptrArray items =>
    "Value is an array with ".toList ++ printNat items.length ++ " items:\n\n".toList
  | _ => []

/-- The options of `-c channel -p property`. -/
def reading (channelName property : CString) : Options where
  version := false
  list := false
  verbose := false
  create := false
  reset := false
  recursive := false
  forceArray := false
  monitor := false
  toggle := false
  channelName := some channelName
  propertyName := some property
  setValue := none
  type := none

variable (host) in
/-- The options that write what has been printed for a value to a property, which may be new. -/
def writing (channelName property : CString) (value : GValue) : Options :=
  { reading channelName property with
    create := true
    forceArray := decide (value.gtype = .ptrArray)
    setValue := some (lineTexts host value)
    type := some ((lineItems value).map fun item => typeWord item.gtype) }

variable (host) in
def Portable (value : GValue) : Prop :=
  lineItems value ≠ [] ∧ ∀ item ∈ lineItems value, ExactValue host item

theorem typeWord_reads {item : GValue} (exactly : ExactValue host item) :
    gtypeFromString (typeWord item.gtype) = item.gtype := by
  cases item <;> first | rfl | exact exactly.elim

theorem text_denotes {item : GValue} (exactly : ExactValue host item) :
    Denotes host (gtypeFromString (typeWord item.gtype))
      ((stringFromGvalue host item).getD []) item := by
  have texts : ∃ text, stringFromGvalue host item = some text ∧ item.textual = true := by
    cases item with
    | string text =>
        cases text with
        | none => exact exactly.elim
        | some text => exact ⟨text, rfl, rfl⟩
    | _ => first | exact ⟨_, rfl, rfl⟩ | exact exactly.elim
  obtain ⟨text, written, textual⟩ := texts
  rw [typeWord_reads exactly, written, Option.getD_some]
  refine ⟨?_, ?_, GValue.text_reads host textual written⟩
  · cases item <;> first | exact exactly.elim | exact fun same => by cases same
  · cases item <;> first | exact exactly.elim | exact fun same => by cases same

theorem denoted (items : List GValue) (exactly : ∀ item ∈ items, ExactValue host item) :
    List.Forall₂ (fun spelled value => Denotes host spelled.1 spelled.2 value)
      ((items.map fun item => gtypeFromString (typeWord item.gtype)).zip
        (items.map fun item => (stringFromGvalue host item).getD [])) items := by
  induction items with
  | nil => exact .nil
  | cons item items ih =>
      exact .cons (text_denotes (exactly item List.mem_cons_self))
        (ih fun other member => exactly other (List.mem_cons_of_mem _ member))

namespace Portable

variable {value : GValue}

theorem alone (portable : Portable host value) (plain : value.gtype ≠ .ptrArray) :
    ExactValue host value ∧ lineItems value = [value] := by
  have single : lineItems value = [value] := by
    cases value <;> first | rfl | exact absurd rfl plain
  exact ⟨portable.2 value (by rw [single]; exact List.mem_cons_self), single⟩

theorem items (portable : Portable host value) (array : value.gtype = .ptrArray) :
    ∃ first rest, value = .ptrArray (first :: rest) ∧
      ∀ item ∈ first :: rest, ExactValue host item := by
  cases value with
  | ptrArray items =>
      cases items with
      | nil => exact absurd rfl portable.1
      | cons first rest => exact ⟨first, rest, rfl, portable.2⟩
  | ptrArrayNull => exact (portable.2 _ List.mem_cons_self).elim
  | _ => cases array

theorem spells (portable : Portable host value) (channelName property : CString)
    (old : Option GValue) :
    Spells host (writing host channelName property value) old (lineTexts host value) value := by
  by_cases array : value.gtype = .ptrArray
  · obtain ⟨first, rest, rfl, exactly⟩ := portable.items array
    refine .array (Or.inl (decide_eq_true array)) rfl ?_ ?_
    · simp [itemTypes, givenTypes, writing, lineItems, lineTexts]
    · have types : itemTypes (writing host channelName property (.ptrArray (first :: rest))) old =
          (first :: rest).map fun item => gtypeFromString (typeWord item.gtype) := by
        simp [itemTypes, givenTypes, writing, lineItems, Function.comp_def]
      rw [types]
      exact denoted (first :: rest) exactly
  · obtain ⟨exactly, single⟩ := portable.alone array
    have typed : singleType (writing host channelName property value) old =
        gtypeFromString (typeWord value.gtype) := by
      rw [singleType, givenTypes, writing, single]
      rfl
    rw [lineTexts, single]
    refine .single (decide_eq_false array) typed ?_ (text_denotes exactly)
    rw [typeWord_reads exactly]
    exact array

theorem isSet (portable : Portable host value) : value.isSet = true := by
  by_cases array : value.gtype = .ptrArray
  · obtain ⟨first, rest, rfl, _⟩ := portable.items array
    rfl
  · exact (portable.alone array).1.isSet

theorem validString (portable : Portable host value) : holdsValidString host value = true := by
  by_cases array : value.gtype = .ptrArray
  · obtain ⟨first, rest, rfl, _⟩ := portable.items array
    rfl
  · have exactly := (portable.alone array).1
    cases value with
    | string text =>
        cases text with
        | none => rfl
        | some text => exact exactly
    | _ => rfl

theorem of_isEqual (portable : Portable host value) {item : GValue}
    (equal : item.isEqual value = true) : item = value := by
  by_cases array : value.gtype = .ptrArray
  · obtain ⟨first, rest, rfl, _⟩ := portable.items array
    rw [isEqual_ptrArray] at equal
    cases equal
  · have exactly := (portable.alone array).1
    apply isEqual_exact ?_ equal
    cases value <;> trivial

theorem children_back (items : List GValue) (exactly : ∀ item ∈ items, ExactValue host item) :
    ((items.filterMap (esconfBasicGvalueToGvariant host)).map .variant).map elementValue =
      items := by
  induction items with
  | nil => rfl
  | cons item items ih =>
      have basic : ∃ sent, esconfBasicGvalueToGvariant host item = some sent ∧
          esconfBasicGvariantToGvalue sent = some item := by
        have here := exactly item List.mem_cons_self
        cases item with
        | string text =>
            cases text with
            | none => exact here.elim
            | some text => exact ⟨.string text, if_pos here, rfl⟩
        | _ => first | exact ⟨_, rfl, rfl⟩ | exact here.elim
      obtain ⟨sent, made, back⟩ := basic
      rw [List.filterMap_cons_some made, List.map_cons, List.map_cons,
        ih fun other member => exactly other (List.mem_cons_of_mem _ member), elementValue, back]
      rfl

theorem carried (portable : Portable host value) : onDaemon host value = some value := by
  by_cases array : value.gtype = .ptrArray
  · obtain ⟨first, rest, rfl, exactly⟩ := portable.items array
    have back := children_back (first :: rest) exactly
    rw [onDaemon, esconfGvalueToGvariant]
    · cases children : (first :: rest).filterMap (esconfBasicGvalueToGvariant host) with
      | nil =>
          rw [children] at back
          cases back
      | cons child others =>
          rw [children] at back
          exact congrArg (fun items => some (GValue.ptrArray items)) back
    · exact fun same => by cases same
  · obtain ⟨sent, made, back, _⟩ := (portable.alone array).1.converted
    rw [onDaemon, made]
    exact back

theorem tabled (portable : Portable host value) :
    (Daemon.tableVariant host value).bind esconfGvariantToGvalue = some value := by
  by_cases array : value.gtype = .ptrArray
  · obtain ⟨first, rest, rfl, exactly⟩ := portable.items array
    exact congrArg (fun items => some (GValue.ptrArray items)) (children_back (first :: rest) exactly)
  · exact (portable.alone array).1.tabled

theorem printed (portable : Portable host value) :
    valueText host value =
      some (heading value ++ (lineTexts host value).flatMap (· ++ "\n".toList)) := by
  have line : ∀ item, ExactValue host item →
      valueLine host item = (stringFromGvalue host item).getD [] ++ "\n".toList := by
    intro item exactly
    cases item with
    | string text =>
        cases text with
        | none => exact exactly.elim
        | some text => rfl
    | _ => first | rfl | exact exactly.elim
  by_cases array : value.gtype = .ptrArray
  · obtain ⟨first, rest, rfl, exactly⟩ := portable.items array
    have lines : (lineTexts host (.ptrArray (first :: rest))).flatMap (· ++ "\n".toList) =
        (first :: rest).flatMap (valueLine host) := by
      rw [lineTexts, lineItems, List.flatMap_map]
      exact List.flatMap_congr fun item member => (line item (exactly item member)).symm
    rw [lines]
    rfl
  · obtain ⟨exactly, single⟩ := portable.alone array
    rw [lineTexts, single, List.map_singleton, List.flatMap_singleton, ← line value exactly]
    cases value <;> first | rfl | exact absurd rfl array

theorem afterSet_shown (portable : Portable host value) (maps : PropMaps) (property : CString) :
    shown host (afterSet host maps property value) property = some value := by
  rw [afterSet]
  split
  · next equal =>
      cases there : shown host maps property with
      | none =>
          rw [there] at equal
          cases equal
      | some item =>
          rw [there] at equal
          rw [portable.of_isEqual equal]
  · rw [portable.carried, Option.map_some, Option.getD_some]
    have stored : (maps.step (.set property value)).effective property = value := by
      rw [PropMaps.step]
      split
      · next equal => exact portable.of_isEqual equal
      · change (if (if property = property then value else maps.user property : GValue).isSet then
          _ else _) = _
        rw [if_pos rfl, if_pos portable.isSet]
        exact if_pos rfl
    rw [shown, stored, if_pos portable.isSet]
    exact portable.tabled

end Portable

theorem afterSet_other {value : GValue} {property name : CString} (apart : name ≠ property) :
    (afterSet host maps property value).effective name = maps.effective name ∧
      shown host (afterSet host maps property value) name = shown host maps name := by
  have same : (afterSet host maps property value).effective name = maps.effective name := by
    rw [afterSet]
    split
    · rfl
    · cases onDaemon host value with
      | none => rfl
      | some carried =>
          change (maps.step (.set property carried)).effective name = _
          rw [PropMaps.step]
          split
          · rfl
          · rw [PropMaps.effective, PropMaps.effective]
            simp only [if_neg apart]
  rw [shown, shown, same]
  exact ⟨rfl, rfl⟩

variable {surroundings : Surroundings}

theorem reading_fits {property : CString} (accepted : esconfPropertyIsValid property = none)
    (short : property.length < maxPropPath) : Fits (reading channelName property) channelName where
  unwatched := rfl
  named _ same := (Option.some.inj same).symm
  base listing := by cases listing
  accepted _ _ same := by
    cases same
    exact ⟨accepted, short⟩

theorem writing_fits {property : CString} (accepted : esconfPropertyIsValid property = none)
    (short : property.length < maxPropPath) (value : GValue) :
    Fits (writing host channelName property value) channelName where
  unwatched := rfl
  named _ same := (Option.some.inj same).symm
  base listing := by cases listing
  accepted _ _ same := by
    cases same
    exact ⟨accepted, short⟩

theorem writing_asks {value : GValue} (portable : Portable host value) (property : CString) :
    (writing host channelName property value).asks =
      some (.write property (lineTexts host value)) := by
  cases items : lineItems value with
  | nil => exact absurd items portable.1
  | cons first rest =>
      rw [lineTexts, items, writing, lineTexts, items]
      rfl

theorem reading_prints (connected : surroundings.bus = .ok ())
    (served : Served channelName maps backend) (sendable : Sendable maps)
    (valid : esconfChannelIsValid channelName = none) {property : CString} {value : GValue}
    (accepted : esconfPropertyIsValid property = none) (short : property.length < maxPropPath)
    (found : shown host maps property = some value) (portable : Portable host value) :
    ∃ after, main surroundings host (.ok (reading channelName property)) backend =
        some (.exits .success (heading value ++ (lineTexts host value).flatMap (· ++ "\n".toList))
          [], after) ∧
      Served channelName maps after := by
  obtain ⟨status, out, err, after, maps', ran, later, _, success, failure⟩ :=
    @main_answers surroundings host maps channelName backend _ connected served sendable valid
      (reading_fits accepted short)
  cases status with
  | failure =>
      exact absurd (.read rfl found portable.printed) ((failure rfl).2 _ rfl _ _)
  | success =>
      obtain ⟨rfl, request, asks, effect⟩ := success rfl
      cases asks
      cases effect with
      | read _ there printed =>
          rw [found] at there
          cases there
          rw [portable.printed] at printed
          cases printed
          exact ⟨after, ran, later⟩
      | toggle asked => cases asked

theorem writing_stores (connected : surroundings.bus = .ok ())
    (served : Served channelName maps backend) (sendable : Sendable maps)
    (valid : esconfChannelIsValid channelName = none) {property : CString} {value : GValue}
    (accepted : esconfPropertyIsValid property = none) (short : property.length < maxPropPath)
    (known : (shown host maps property).isSome = true ∨ (maps.effective property).isSet = false)
    (portable : Portable host value) :
    ∃ after, main surroundings host (.ok (writing host channelName property value)) backend =
        some (.exits .success [] [], after) ∧
      Served channelName (afterSet host maps property value) after ∧
      Sendable (afterSet host maps property value) := by
  obtain ⟨status, out, err, after, maps', ran, later, whole, success, failure⟩ :=
    @main_answers surroundings host maps channelName backend _ connected served sendable valid
      (writing_fits accepted short value)
  rw [writing_asks portable] at success failure
  have spells := portable.spells channelName property (shown host maps property)
  have sets : Sets host maps property value :=
    Or.inr ⟨known, by rw [portable.carried]; rfl⟩
  cases status with
  | failure =>
      exact absurd (.write (Or.inr rfl) spells portable.validString sets)
        ((failure rfl).2 _ rfl _ _)
  | success =>
      obtain ⟨rfl, request, asks, effect⟩ := success rfl
      cases asks
      cases effect with
      | write _ other =>
          obtain ⟨text, texts, lines⟩ : ∃ text texts, lineTexts host value = text :: texts := by
            cases items : lineItems value with
            | nil => exact absurd items portable.1
            | cons first rest => exact ⟨_, _, by rw [lineTexts, items]; rfl⟩
          rw [lines] at spells other
          have same := (newValue_ok.mpr spells).symm.trans (newValue_ok.mpr other)
          cases same
          exact ⟨after, ran, later, whole⟩

variable (host) in
/-- Properties of a channel with the values that a client gets for them. -/
def Dumped (maps : PropMaps) (contents : List (CString × GValue)) : Prop :=
  ∀ entry ∈ contents, esconfPropertyIsValid entry.1 = none ∧ entry.1.length < maxPropPath ∧
    shown host maps entry.1 = some entry.2 ∧ Portable host entry.2

theorem readings_print (connected : surroundings.bus = .ok ())
    (served : Served channelName maps backend) (sendable : Sendable maps)
    (valid : esconfChannelIsValid channelName = none) {contents : List (CString × GValue)}
    (dumped : Dumped host maps contents) :
    ∃ after, runAll host (contents.map fun entry =>
        ⟨surroundings, reading channelName entry.1⟩) backend =
      some (contents.map fun entry => .exits .success (heading entry.2 ++
        (lineTexts host entry.2).flatMap (· ++ "\n".toList)) [], after) ∧
      Served channelName maps after := by
  induction contents generalizing backend with
  | nil => exact ⟨backend, rfl, served⟩
  | cons entry contents ih =>
      obtain ⟨accepted, short, found, portable⟩ := dumped entry List.mem_cons_self
      obtain ⟨middle, ran, later⟩ :=
        reading_prints connected served sendable valid accepted short found portable
      obtain ⟨after, rest, final⟩ :=
        ih later fun other member => dumped other (List.mem_cons_of_mem _ member)
      refine ⟨after, ?_, final⟩
      rw [List.map_cons, runAll, ran, Option.bind_some]
      dsimp only
      rw [rest]
      rfl

theorem writings_store {source : PropMaps} (connected : surroundings.bus = .ok ())
    (served : Served channelName maps backend) (sendable : Sendable maps)
    (valid : esconfChannelIsValid channelName = none) {contents : List (CString × GValue)}
    (dumped : Dumped host source contents)
    (known : ∀ entry ∈ contents, (shown host maps entry.1).isSome = true ∨
      (maps.effective entry.1).isSet = false) :
    ∃ last after, runAll host (contents.map fun entry =>
        ⟨surroundings, writing host channelName entry.1 entry.2⟩) backend =
      some (contents.map fun _ => .exits .success [] [], after) ∧
      Served channelName last after ∧
      (∀ name ∈ contents.map Prod.fst, shown host last name = shown host source name) ∧
      ∀ name, name ∉ contents.map Prod.fst → shown host last name = shown host maps name := by
  induction contents generalizing maps backend with
  | nil => exact ⟨maps, backend, rfl, served, fun _ member => absurd member List.not_mem_nil,
      fun _ _ => rfl⟩
  | cons entry contents ih =>
      obtain ⟨accepted, short, found, portable⟩ := dumped entry List.mem_cons_self
      obtain ⟨middle, ran, later, whole⟩ := writing_stores connected served sendable valid accepted
        short (known entry List.mem_cons_self) portable
      have stored := portable.afterSet_shown maps entry.1
      have others := fun name apart =>
        @afterSet_other host maps entry.2 entry.1 name apart
      obtain ⟨last, after, rest, final, same, kept⟩ := ih later whole
        (fun other member => dumped other (List.mem_cons_of_mem _ member)) (by
          intro other member
          by_cases here : other.1 = entry.1
          · rw [here, stored]
            exact Or.inl rfl
          · rw [(others other.1 here).1, (others other.1 here).2]
            exact known other (List.mem_cons_of_mem _ member))
      refine ⟨last, after, ?_, final, ?_, ?_⟩
      · rw [List.map_cons, runAll, ran, Option.bind_some]
        dsimp only
        rw [rest]
        rfl
      · intro name member
        by_cases again : name ∈ contents.map Prod.fst
        · exact same name again
        · obtain rfl := (List.mem_cons.mp member).resolve_right again
          rw [kept _ again, stored, found]
      · intro name member
        rw [List.map_cons, List.mem_cons, not_or] at member
        rw [kept name member.2, (others name member.1).2]

/-- What the tool prints for the properties of one daemon and writes to another is there. -/
theorem dump_restores {source : PropMaps} {origin : EsconfBackendPerchannelXml}
    (connected : surroundings.bus = .ok ()) (valid : esconfChannelIsValid channelName = none)
    (held : Served channelName source origin) (whole : Sendable source)
    (served : Served channelName maps backend) (sendable : Sendable maps)
    {contents : List (CString × GValue)} (dumped : Dumped host source contents)
    (known : ∀ entry ∈ contents, (shown host maps entry.1).isSome = true ∨
      (maps.effective entry.1).isSet = false) :
    (∃ after, runAll host (contents.map fun entry =>
        ⟨surroundings, reading channelName entry.1⟩) origin =
      some (contents.map fun entry => .exits .success (heading entry.2 ++
        (lineTexts host entry.2).flatMap (· ++ "\n".toList)) [], after) ∧
      Served channelName source after) ∧
    ∃ last after, runAll host (contents.map fun entry =>
        ⟨surroundings, writing host channelName entry.1 entry.2⟩) backend =
      some (contents.map fun _ => .exits .success [] [], after) ∧
      Served channelName last after ∧
      (∀ name ∈ contents.map Prod.fst, shown host last name = shown host source name) ∧
      ∀ name, name ∉ contents.map Prod.fst → shown host last name = shown host maps name :=
  ⟨readings_print connected held whole valid dumped,
    writings_store connected served sendable valid dumped known⟩

def terminal : Surroundings where
  versionText := []
  bus := .ok ()
  channels := none
  collate one other := one.length - other.length
  collate_total one other := by omega
  collate_trans one other last first second := by omega
  visit names := names
  visit_perm _ := List.Perm.refl _

theorem sendable_unset : Sendable unsetMaps :=
  fun _ _ => ⟨GValue.noConfusion, GValue.noConfusion⟩

theorem portable_int : Portable (.bare []) (.int 5) :=
  ⟨List.cons_ne_nil _ _, fun item member => by
    rw [List.mem_singleton.mp member]
    exact trivial⟩

theorem dump_restores_written :
    ∃ source origin, Served "c".toList source origin ∧
      Dumped (.bare []) source [("/a".toList, .int 5)] ∧
      ∃ last after, runAll (.bare [])
          [⟨terminal, writing (.bare []) "c".toList "/a".toList (.int 5)⟩]
          (.idle (.singleton "c".toList .root)) = some ([.exits .success [] []], after) ∧
        Served "c".toList last after ∧
        shown (.bare []) last "/a".toList = shown (.bare []) source "/a".toList := by
  have unset : (unsetMaps.effective "/a".toList).isSet = false := rfl
  obtain ⟨origin, _, held, whole⟩ :=
    @writing_stores (.bare []) "c".toList unsetMaps _ terminal rfl served_root sendable_unset
      (by decide) "/a".toList (.int 5) (by decide) (by decide) (Or.inr unset) portable_int
  have dumped : Dumped (.bare []) (afterSet (.bare []) unsetMaps "/a".toList (.int 5))
      [("/a".toList, .int 5)] := by
    intro entry member
    rw [List.mem_singleton.mp member]
    exact ⟨by decide, by decide, portable_int.afterSet_shown _ _, portable_int⟩
  obtain ⟨_, last, after, ran, final, same, _⟩ :=
    @dump_restores (.bare []) "c".toList unsetMaps _ terminal _ origin rfl (by decide) held whole
      served_root sendable_unset _ dumped fun entry member => by
        rw [List.mem_singleton.mp member]
        exact Or.inr unset
  exact ⟨_, origin, held, dumped, last, after, ran, final, same _ List.mem_cons_self⟩

end Esconf.Client.Query
