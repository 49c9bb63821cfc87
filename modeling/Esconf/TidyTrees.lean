import Esconf.RereadDocument
import Esconf.GVariant

/-! Trees whose nodes can be told apart and named in a file: what the document written
for one gives, and that reading leaves trees so. -/

namespace Esconf

open NamedTree

/-- Siblings have different names, and names and paths can be written. -/
structure Tidy (tree : PropTree) : Prop where
  distinct : Distinct tree
  names : ∀ path node, descend tree path = some node →
    ∀ name ∈ path, name ≠ [] ∧ '/' ∉ name ∧ CleanText name
  short : ∀ path node, descend tree path = some node → (partsName path).length < maxPropPath

/-- It is enough to look at what a walk over the tree visits. -/
theorem tidy_of_names {tree : PropTree} (distinct : Distinct tree)
    (names : ∀ visited ∈ preorder [] tree,
      (∀ name ∈ visited.1, name ≠ [] ∧ '/' ∉ name ∧ CleanText name) ∧
        (partsName visited.1).length < maxPropPath) : Tidy tree := by
  have visits : ∀ path node, descend tree path = some node →
      (path, node.data) ∈ preorder [] tree := by
    intro path node found
    exact (mem_preorder distinct).mpr ⟨path, node, rfl, found, rfl⟩
  constructor
  · exact distinct
  · intro path node found
    exact (names _ (visits path node found)).1
  · intro path node found
    exact (names _ (visits path node found)).2

section Document

variable {host : Host} {tree : PropTree}

theorem Tidy.child (tidy : Tidy tree) {front : List CString} {node child : PropTree}
    (here : descend tree front = some node) (member : child ∈ node.children) :
    descend tree (front ++ [child.key]) = some child :=
  descend_child (tidy.distinct.descend here) here member

theorem mentions_nodes (prints : PrintsDoubles host) (tidy : Tidy tree) (node : PropTree) :
    ∀ front, descend tree (front ++ [node.key]) = some node →
      ∀ mention ∈ (documentElement host node).mentions front, ∃ sub,
        mention.path ≠ [] ∧ descend tree mention.path = some sub ∧
          mention = nodeMention host mention.path sub := by
  induction node using byChildren with
  | step name prop children ih =>
      intro front here mention member
      have clean : CleanText name := (tidy.names _ _ here name (by simp)).2.2
      obtain ⟨type, text, _, attributes, _⟩ :=
        @headAttributes_read _ prop.value (fun _ => prints) _ clean
      rw [documentElement, PropertyElement.mentions, attributes, elementName_written] at member
      rcases List.mem_cons.mp member with rfl | below
      · refine ⟨.node name prop children, by simp, here, ?_⟩
        rw [nodeMention]
        dsimp only
        rw [key_node, data_node, attributes]
      · obtain ⟨element, inside, mentioned⟩ := PropertyElement.mem_mentionsAll.mp below
        rw [documentElements_map] at inside
        obtain ⟨child, nested, rfl⟩ := List.mem_map.mp inside
        exact ih child nested _ (tidy.child here nested) mention mentioned

theorem node_mentioned (prints : PrintsDoubles host) (tidy : Tidy tree) {rest : List CString}
    {node sub : PropTree} {front : List CString}
    (here : descend tree (front ++ [node.key]) = some node)
    (found : descend node rest = some sub) :
    nodeMention host (front ++ [node.key] ++ rest) sub ∈
      (documentElement host node).mentions front := by
  induction rest generalizing front node with
  | nil =>
      cases found
      obtain ⟨name, prop, children⟩ := sub
      have clean : CleanText name := (tidy.names _ _ here name (by simp)).2.2
      obtain ⟨type, text, _, attributes, _⟩ :=
        @headAttributes_read _ prop.value (fun _ => prints) _ clean
      rw [documentElement, PropertyElement.mentions, attributes, elementName_written,
        List.append_nil, nodeMention, key_node, data_node, attributes]
      exact List.mem_cons_self
  | cons name rest ih =>
      obtain ⟨key, prop, children⟩ := node
      have clean : CleanText key := (tidy.names _ _ here key (by simp)).2.2
      obtain ⟨type, text, _, attributes, _⟩ :=
        @headAttributes_read _ prop.value (fun _ => prints) _ clean
      obtain ⟨child, reached, deeper⟩ := Option.bind_eq_some_iff.mp found
      have named := child?_key reached
      have member := child?_mem reached
      have next := tidy.child here member
      rw [documentElement, PropertyElement.mentions, attributes, elementName_written]
      apply List.mem_cons_of_mem
      apply PropertyElement.mem_mentionsAll.mpr
      refine ⟨documentElement host child, ?_, ?_⟩
      · rw [documentElements_map]
        exact List.mem_map.mpr ⟨child, member, rfl⟩
      · have mentioned := ih next deeper
        rw [named, List.append_assoc] at mentioned
        exact mentioned

theorem mem_document (prints : PrintsDoubles host) (tidy : Tidy tree) (channelName : CString)
    {mention : Mention} :
    mention ∈ (writtenDocument host channelName tree).mentions ↔ ∃ sub,
      mention.path ≠ [] ∧ descend tree mention.path = some sub ∧
        mention = nodeMention host mention.path sub := by
  constructor
  · intro mentioned
    obtain ⟨element, inside, member⟩ := PropertyElement.mem_mentionsAll.mp mentioned
    rw [writtenDocument, documentElements_map] at inside
    obtain ⟨child, nested, rfl⟩ := List.mem_map.mp inside
    exact mentions_nodes prints tidy child [] (tidy.child (descend_nil tree) nested) mention member
  · intro found
    obtain ⟨sub, full, here, same⟩ := found
    cases steps : mention.path with
    | nil => exact absurd steps full
    | cons name rest =>
        rw [steps] at here
        obtain ⟨child, reached, deeper⟩ := Option.bind_eq_some_iff.mp here
        have nested := child?_mem reached
        apply PropertyElement.mem_mentionsAll.mpr
        refine ⟨documentElement host child, ?_, ?_⟩
        · rw [writtenDocument, documentElements_map]
          exact List.mem_map.mpr ⟨child, nested, rfl⟩
        · have mentioned :=
            node_mentioned prints tidy (tidy.child (descend_nil tree) nested) deeper
          rw [child?_key reached] at mentioned
          rw [same, steps]
          exact mentioned

/-- What the document of a channel gives a path. -/
theorem document_gives (prints : PrintsDoubles host) (tidy : Tidy tree)
    (readable : ∀ path, path ≠ [] → rereads (tree.slot path).value = true)
    (channelName : CString) {path : List CString} (full : path ≠ []) :
    ((writtenDocument host channelName tree).gives host path).getD .invalid =
      reread host (tree.slot path).value := by
  have value : ∀ mention ∈ (writtenDocument host channelName tree).mentions,
      mention.gives host = reread host (tree.slot mention.path).value := by
    intro mention member
    obtain ⟨sub, _, here, same⟩ := (mem_document prints tidy channelName).mp member
    have slot : tree.slot mention.path = sub.data := lookup_of_descend here
    have known := readable mention.path
      ((mem_document prints tidy channelName).mp member).choose_spec.1
    rw [slot] at known
    rcases List.eq_nil_or_concat mention.path with none | ⟨front, name, parts⟩
    · exact absurd none ((mem_document prints tidy channelName).mp member).choose_spec.1
    · rw [List.concat_eq_append] at parts
      have key : sub.key = name := by
        rw [parts] at here
        exact descend_key here
      have clean : CleanText sub.key := by
        rw [key]
        exact (tidy.names _ _ here name (by rw [parts]; simp)).2.2
      rw [slot, same]
      exact nodeMention_gives prints _ clean known
  have single : ∀ key first second,
      (key, first) ∈ assigned host (writtenDocument host channelName tree).mentions →
      (key, second) ∈ assigned host (writtenDocument host channelName tree).mentions →
      first = second := by
    intro key first second one two
    obtain ⟨mention, member, same⟩ := List.mem_map.mp one
    obtain ⟨other, member', same'⟩ := List.mem_map.mp two
    cases same
    have paths := congrArg Prod.fst same'
    have values := congrArg Prod.snd same'
    dsimp only at paths values
    rw [← values, value mention member, value other member', paths]
  rw [ChannelDocument.gives]
  cases found : descend tree path with
  | none =>
      have blank : tree.slot path = .blank := lookup_of_missing found
      have missing : Assignments.last
          (assigned host (writtenDocument host channelName tree).mentions) path = none := by
        rw [← Option.not_isSome_iff_eq_none, Assignments.last_isSome]
        rintro ⟨given, member⟩
        obtain ⟨mention, inside, same⟩ := List.mem_map.mp member
        cases same
        obtain ⟨sub, _, here, _⟩ := (mem_document prints tidy channelName).mp inside
        rw [found] at here
        cases here
      rw [missing, blank]
      rfl
  | some sub =>
      have member : nodeMention host path sub ∈
          (writtenDocument host channelName tree).mentions :=
        (mem_document prints tidy channelName).mpr ⟨sub, full, found, rfl⟩
      have given := (Assignments.last_eq_some single).mpr
        (List.mem_map.mpr ⟨_, member, rfl⟩)
      change Assignments.last _ path = some _ at given
      rw [given, Option.getD_some]
      exact value _ member

end Document

section Reading

variable {host : Host}

theorem updateSlot_grown (state : XmlParserState) (name : CString) (f : GValue → GValue) :
    Grown [] state.properties (state.updateSlot name f).properties := Grown.update _ _ _

theorem xmlPropertyValue_grown {state entered : XmlParserState} {fullpath type : CString}
    {value : Option CString}
    (done : xmlPropertyValue host state fullpath type value = .ok entered) :
    Grown [] state.properties entered.properties := by
  rcases xmlPropertyValue_cases host fullpath type value with
    ⟨error, outcome⟩ | outcome | ⟨zero, outcome⟩ | ⟨zero, error, outcome⟩ | ⟨parsed, outcome⟩ |
      ⟨parsed, outcome⟩ <;> rw [outcome] at done <;> cases done
  · exact Grown.refl _
  · exact updateSlot_grown (enterProperty fullpath state) _ _
  · exact updateSlot_grown (enterProperty fullpath state) fullpath fun _ => parsed

theorem xmlPropertyAt_grown {state entered : XmlParserState} {fullpath type : CString}
    {attributes : Attributes} (unlocked : state.channel.locked = false)
    (valid : propNameIsValid fullpath = true) (short : fullpath.length < maxPropPath)
    (free : lockedState host attributes = none)
    (done : xmlPropertyAt host state fullpath type attributes = .ok entered) :
    Grown [nameParts fullpath] state.properties entered.properties := by
  have idle : Grown [nameParts fullpath] state.properties state.properties :=
    ⟨id, fun _ there => Or.inl there⟩
  have loadable := loadable_of_unlocked unlocked
  cases looked : proptreeLookup state.properties fullpath with
  | some prop =>
      rw [xmlPropertyAt_found host loadable looked] at done
      split at done
      · cases done
        exact idle
      · unfold xmlPropertyLocks at done
        rw [free] at done
        have cleared := Grown.update (clearProperty state.isSystemFile) (nameParts fullpath)
          state.properties
        exact idle.trans (cleared.trans (xmlPropertyValue_grown done))
  | none =>
      rw [xmlPropertyAt_missing host loadable looked, unlocked] at done
      cases added : proptreeAddProperty state.properties fullpath .invalid false with
      | none =>
          rw [added] at done
          cases done
      | some grown =>
          rw [added] at done
          unfold xmlPropertyLocks at done
          rw [free] at done
          exact (Grown.add valid short looked added).trans (xmlPropertyValue_grown done)

variable {system : Bool} {front : List CString} {state : XmlParserState}

theorem xmlHandleProperty_grown (inside : Inside system front state) {attributes : Attributes}
    {entered : XmlParserState} (free : lockedState host attributes = none)
    (writable : Writable (front ++ [elementName attributes]))
    (done : xmlHandleProperty host state attributes = .ok entered) :
    Grown [front ++ [elementName attributes]] state.properties entered.properties := by
  obtain ⟨known, named, typed⟩ := xmlHandleProperty_opens done
  unfold xmlHandleProperty at done
  rw [known, filled_getD named, filled_getD typed, inside.path] at done
  change xmlPropertyAt host state (elementPath (partsName front) (elementName attributes))
    (elementType attributes) attributes = _ at done
  rw [elementPath_snoc writable.short] at done
  have grown := xmlPropertyAt_grown inside.unlocked writable.valid writable.short free done
  rw [writable.nameParts_eq] at grown
  exact grown

theorem startElem_value_grown {attributes : Attributes} {after : XmlParserState}
    (done : startElem host state "value".toList attributes = .ok after) :
    Grown [] state.properties after.properties := by
  rcases startElem_cases host state "value".toList attributes with
    ⟨error, outcome⟩ | ⟨_, wrong, _⟩ | ⟨_, wrong, _⟩ | ⟨_, _, outcome⟩
  · rw [outcome] at done
    cases done
  · exact absurd wrong (by decide)
  · exact absurd wrong (by decide)
  · rw [outcome] at done
    rcases xmlHandleValue_cases host attributes with
      ⟨error, refused⟩ | faulty | ⟨parsed, added⟩
    · rw [refused] at done
      cases done
    · rw [faulty] at done
      cases done
    · rw [added] at done
      cases done
      unfold addElement
      split
      · exact Grown.refl _
      · exact updateSlot_grown _ _ _

theorem endElem_properties (state : XmlParserState) :
    (endElem state).properties = state.properties :=
  congrArg EsconfChannel.properties (endElem_keeps state).1

theorem values_grown {values : List Attributes} {after : XmlParserState}
    (done : parseEvents host state (values.flatMap valueEvents) = .ok after) :
    Grown [] state.properties after.properties := by
  induction values generalizing state with
  | nil =>
      cases done
      exact Grown.refl _
  | cons item rest ih =>
      change parseEvents host state (.startElement "value".toList item :: .endElement _ ::
        rest.flatMap valueEvents) = _ at done
      rw [parseEvents, handleEvent] at done
      cases started : startElem host state "value".toList item with
      | ok middle =>
          rw [started] at done
          have one := startElem_value_grown started
          have two := ih done
          rw [endElem_properties] at two
          exact one.trans two
      | _ =>
          rw [started] at done
          cases done

theorem Inside.header_grown (inside : Inside system front state) {attributes : Attributes}
    {values : List Attributes}
    (accepted : Mention.Accepted host ⟨front ++ [elementName attributes], attributes, values⟩)
    (regular : Mention.Regular host ⟨front ++ [elementName attributes], attributes, values⟩)
    {after : XmlParserState}
    (done : parseEvents host state (.startElement "property".toList attributes ::
      values.flatMap valueEvents) = .ok after) :
    Grown [front ++ [elementName attributes]] state.properties after.properties := by
  have writable := inside.writable accepted.opens.named regular.plain regular.short
  rw [parseEvents, handleEvent, startElem_element host inside.elem] at done
  cases opened : xmlHandleProperty host state attributes with
  | ok entered =>
      rw [opened] at done
      exact (xmlHandleProperty_grown inside regular.free writable opened).trans (values_grown done)
  | _ =>
      rw [opened] at done
      cases done

def Grows (host : Host) (system : Bool) (front : List CString) (events : List MarkupEvent)
    (mentions : List Mention) : Prop :=
  ∀ state after, Inside system front state → parseEvents host state events = .ok after →
    Grown (mentions.map Mention.path) state.properties after.properties

theorem grows_elements {front : List CString} {elements : List PropertyElement}
    (fine : ∀ mention ∈ PropertyElement.mentionsAll front elements,
      mention.Accepted host ∧ mention.Regular host)
    (each : ∀ element ∈ elements,
      Grows host system front element.events (element.mentions front)) :
    Grows host system front (PropertyElement.eventsAll elements)
      (PropertyElement.mentionsAll front elements) := by
  induction elements with
  | nil =>
      intro state after _ done
      cases done
      exact Grown.refl _
  | cons element rest ih =>
      intro state after inside done
      rw [PropertyElement.mentionsAll] at fine
      obtain ⟨here, later⟩ := List.forall_mem_append.mp fine
      obtain ⟨middle, parsed, inside', _⟩ := carries_element element front here state inside
      have first : parseEvents host state element.events = .ok middle := by
        have whole := parsed []
        rw [List.append_nil] at whole
        exact whole
      rw [PropertyElement.eventsAll, parseEvents_append first] at done
      rw [PropertyElement.mentionsAll, List.map_append]
      apply (each element List.mem_cons_self state middle inside first).trans
      apply ih later (fun other member => each other (List.mem_cons_of_mem _ member)) middle after
        inside' done

theorem grows_element (element : PropertyElement) :
    ∀ front, (∀ mention ∈ element.mentions front, mention.Accepted host ∧ mention.Regular host) →
      Grows host system front element.events (element.mentions front) := by
  induction element using PropertyElement.byNested with
  | step attributes values nested ih =>
      intro front fine state after inside done
      rw [PropertyElement.mentions] at fine ⊢
      obtain ⟨⟨accepted, regular⟩, below⟩ := List.forall_mem_cons.mp fine
      obtain ⟨entered, parsed, begun⟩ := inside.header accepted regular
      have first : parseEvents host state (.startElement "property".toList attributes ::
          values.flatMap valueEvents) = .ok entered := by
        have whole := parsed []
        rw [List.append_nil] at whole
        exact whole
      have each : ∀ element ∈ nested, Grows host system (front ++ [elementName attributes])
          element.events (element.mentions (front ++ [elementName attributes])) := by
        intro element member
        apply ih element member
        intro mention there
        exact below mention (PropertyElement.mem_mentionsAll.mpr ⟨element, member, there⟩)
      have carried : ∀ element ∈ nested, Carries host system (front ++ [elementName attributes])
          element.events (assigned host (element.mentions (front ++ [elementName attributes]))) := by
        intro element member
        apply carries_element
        intro mention there
        exact below mention (PropertyElement.mem_mentionsAll.mpr ⟨element, member, there⟩)
      obtain ⟨filled, second, _, _⟩ := carries_elements carried entered begun.inside
      have inner : parseEvents host entered (PropertyElement.eventsAll nested) = .ok filled := by
        have whole := second []
        rw [List.append_nil] at whole
        exact whole
      rw [PropertyElement.events, ← List.cons_append, parseEvents_append first,
        parseEvents_append inner] at done
      have last := Handled.ok.inj done
      have one := inside.header_grown accepted regular first
      have two := grows_elements below each entered filled begun.inside inner
      rw [← last, endElem_properties]
      exact one.trans two

theorem mention_names {P : CString → Prop} (element : PropertyElement) :
    ∀ front, (∀ name ∈ front, P name) →
      (∀ mention ∈ element.mentions front, P (elementName mention.attributes)) →
      ∀ mention ∈ element.mentions front, ∀ name ∈ mention.path, P name := by
  induction element using PropertyElement.byNested with
  | step attributes values nested ih =>
      intro front outer each mention member
      rw [PropertyElement.mentions] at each member
      obtain ⟨own, below⟩ := List.forall_mem_cons.mp each
      have around : ∀ name ∈ front ++ [elementName attributes], P name := by
        intro name inside
        rcases List.mem_append.mp inside with before | last
        · exact outer name before
        · rw [List.mem_singleton.mp last]
          exact own
      rcases List.mem_cons.mp member with rfl | later
      · exact around
      · obtain ⟨element, nestedHere, there⟩ := PropertyElement.mem_mentionsAll.mp later
        apply ih element nestedHere _ around _ mention there
        intro other inside
        exact below other (PropertyElement.mem_mentionsAll.mpr ⟨element, nestedHere, inside⟩)

end Reading

theorem partsName_shorter {path parts : List CString} (below : path <+: parts) :
    (partsName path).length ≤ (partsName parts).length := by
  obtain ⟨rest, rfl⟩ := below
  rw [partsName, partsName, SeparatedWords.join_append, List.length_append]
  omega

theorem Tidy.grown {before after : PropTree} (tidy : Tidy before) {paths : List (List CString)}
    (grown : Grown paths before after)
    (named : ∀ parts ∈ paths, ∀ name ∈ parts, name ≠ [] ∧ '/' ∉ name ∧ CleanText name)
    (short : ∀ parts ∈ paths, (partsName parts).length < maxPropPath) : Tidy after := by
  have origin : ∀ path node, descend after path = some node →
      (∃ old, descend before path = some old) ∨ ∃ parts ∈ paths, path <+: parts := by
    intro path node here
    rcases grown.nodes path (by rw [here]; rfl) with old | new
    · exact Or.inl (Option.isSome_iff_exists.mp old)
    · exact Or.inr new
  constructor
  · exact grown.distinct tidy.distinct
  · intro path node here name member
    rcases origin path node here with ⟨old, found⟩ | ⟨parts, inside, below⟩
    · exact tidy.names path old found name member
    · exact named parts inside name (below.subset member)
  · intro path node here
    rcases origin path node here with ⟨old, found⟩ | ⟨parts, inside, below⟩
    · exact tidy.short path old found
    · exact Nat.lt_of_le_of_lt (partsName_shorter below) (short parts inside)

theorem Tidy.flushable_iff {tree : PropTree} (tidy : Tidy tree) :
    flushableAll 1 tree.children = true ↔
      ∀ path, path ≠ [] → formattable (tree.slot path).value = true := by
  constructor
  · intro written
    have below : ∀ path depth (node sub : PropTree), depth * 2 < maxPropPath →
        flushable depth node = true → descend node path = some sub →
        formattable sub.data.value = true := by
      intro path
      induction path with
      | nil =>
          intro depth node sub fits here found
          cases found
          obtain ⟨name, prop, children⟩ := node
          exact ((flushable_node fits).mp here).1
      | cons name rest ih =>
          intro depth node sub fits here found
          obtain ⟨key, prop, children⟩ := node
          obtain ⟨child, reached, deeper⟩ := Option.bind_eq_some_iff.mp found
          have next := flushableAll_iff.mp ((flushable_node fits).mp here).2 child
            (child?_mem reached)
          exact ih (depth + 1) child sub (fits_next fits next) next deeper
    intro path full
    cases found : descend tree path with
    | none =>
        have blank : tree.slot path = .blank := lookup_of_missing found
        rw [blank]
        rfl
    | some sub =>
        have slot : tree.slot path = sub.data := lookup_of_descend found
        rw [slot]
        cases path with
        | nil => exact absurd rfl full
        | cons name rest =>
            obtain ⟨child, reached, deeper⟩ := Option.bind_eq_some_iff.mp found
            exact below rest 1 child sub (by decide)
              (flushableAll_iff.mp written child (child?_mem reached)) deeper
  · intro known
    have node : ∀ node : PropTree, ∀ front, descend tree (front ++ [node.key]) = some node →
        flushable (front.length + 1) node = true := by
      intro node
      induction node using byChildren with
      | step name prop children ih =>
          intro front here
          have slot : tree.slot (front ++ [name]) = prop := lookup_of_descend here
          have deep := partsName_depth fun other member => (tidy.names _ _ here other member).1
          have short := tidy.short _ _ here
          rw [List.length_append, List.length_singleton] at deep
          have fits : (front.length + 1) * 2 < maxPropPath := Nat.lt_of_le_of_lt deep short
          rw [flushable_node fits, ← slot]
          refine ⟨known _ (by simp), flushableAll_iff.mpr ?_⟩
          intro child member
          have next := ih child member (front ++ [name]) (tidy.child here member)
          rw [List.length_append] at next
          exact next
    apply flushableAll_iff.mpr
    intro child member
    exact node child [] (tidy.child (descend_nil tree) member)

theorem decoded_rereads {variant : GVariant} {value : GValue}
    (decoded : esconfGvariantToGvalue variant = some value) (known : formattable value = true) :
    rereads value = true := by
  rw [esconfGvariantToGvalue_unboxed] at decoded
  cases inner : unboxed variant with
  | variants elements =>
      rw [inner] at decoded
      cases decoded
      apply List.all_eq_true.mpr
      intro item member
      have one := List.all_eq_true.mp known item member
      obtain ⟨element, _, same⟩ := List.mem_map.mp member
      rw [← same, elementValue_unboxed] at one ⊢
      cases basic : unboxed element <;> rw [basic] at one <;> first | rfl | cases one
  | _ =>
      rw [inner] at decoded
      cases decoded <;> rfl

end Esconf
