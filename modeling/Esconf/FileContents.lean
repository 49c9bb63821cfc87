import Esconf.LoadLayers

/-! Files whose value and property elements stand in any order. The parser forgets the
array of an element with the first element nested in it, so it accepts a file only
if the values of every array come first. -/

namespace Esconf

open NamedTree

inductive Content where
  | value (attributes : Attributes)
  | property (attributes : Attributes) (contents : List Content)

namespace Content

theorem byContents {motive : Content → Prop} (value : ∀ attributes, motive (.value attributes))
    (property : ∀ attributes contents, (∀ content ∈ contents, motive content) →
      motive (.property attributes contents)) : ∀ content, motive content
  | .value attributes => value attributes
  | .property attributes contents =>
    property attributes contents fun content _ => byContents value property content

mutual

def events : Content → List MarkupEvent
  | value attributes => valueEvents attributes
  | property attributes contents =>
    .startElement "property".toList attributes ::
      (eventsAll contents ++ [.endElement "property".toList])

def eventsAll : List Content → List MarkupEvent
  | [] => []
  | content :: rest => events content ++ eventsAll rest

end

/-- The value elements, without those of nested properties. -/
def values : List Content → List Attributes
  | [] => []
  | value attributes :: rest => attributes :: values rest
  | property _ _ :: rest => values rest

mutual

def element : Content → List PropertyElement
  | value _ => []
  | property attributes contents => [.property attributes (values contents) (elements contents)]

def elements : List Content → List PropertyElement
  | [] => []
  | content :: rest => element content ++ elements rest

end

def valuesFirst : List Content → Bool
  | [] => true
  | value _ :: rest => valuesFirst rest
  | property _ _ :: rest => (values rest).isEmpty

mutual

def inOrder : Content → Bool
  | value _ => true
  | property _ contents => valuesFirst contents && inOrderAll contents

def inOrderAll : List Content → Bool
  | [] => true
  | content :: rest => inOrder content && inOrderAll rest

end

theorem valuesFirst_of_none {contents : List Content} (none : values contents = []) :
    valuesFirst contents = true := by
  cases contents with
  | nil => rfl
  | cons content rest =>
      cases content with
      | value attributes => cases none
      | property attributes inner =>
          rw [valuesFirst, List.isEmpty_iff]
          exact none

theorem eventsAll_inOrder {contents : List Content}
    (each : ∀ content ∈ contents, content.inOrder = true → ∀ attributes inner,
      content = property attributes inner →
        content.events = PropertyElement.events (.property attributes (values inner) (elements inner)))
    (first : valuesFirst contents = true) (ordered : inOrderAll contents = true) :
    eventsAll contents =
      (values contents).flatMap valueEvents ++ PropertyElement.eventsAll (elements contents) := by
  induction contents with
  | nil => rfl
  | cons content rest ih =>
      rw [inOrderAll, Bool.and_eq_true] at ordered
      have later := ih fun other member => each other (List.mem_cons_of_mem _ member)
      cases content with
      | value attributes =>
          rw [eventsAll, later first ordered.2, ← List.append_assoc]
          rfl
      | property attributes inner =>
          have none : values rest = [] := List.isEmpty_iff.mp first
          have here := each _ List.mem_cons_self ordered.1 attributes inner rfl
          rw [eventsAll, here, later (valuesFirst_of_none none) ordered.2, none, values, none]
          rfl

theorem events_inOrder (content : Content) :
    content.inOrder = true → ∀ attributes inner, content = property attributes inner →
      content.events =
        PropertyElement.events (.property attributes (values inner) (elements inner)) := by
  induction content using byContents with
  | value attributes =>
      intro _ other inner same
      cases same
  | property attributes contents ih =>
      intro ordered other inner same
      cases same
      rw [inOrder, Bool.and_eq_true] at ordered
      rw [events, eventsAll_inOrder ih ordered.1 ordered.2, PropertyElement.events,
        List.append_assoc]

end Content

structure ChannelContents where
  attributes : Attributes
  contents : List Content

namespace ChannelContents

def events (file : ChannelContents) : List MarkupEvent :=
  .startElement "channel".toList file.attributes ::
    (Content.eventsAll file.contents ++ [.endElement "channel".toList])

/-- The file with the values of every array moved to the front of its element. -/
def document (file : ChannelContents) : ChannelDocument where
  attributes := file.attributes
  properties := Content.elements file.contents

def InOrder (file : ChannelContents) : Prop := Content.inOrderAll file.contents = true

instance (file : ChannelContents) : Decidable file.InOrder :=
  inferInstanceAs (Decidable (_ = true))

theorem events_inOrder {file : ChannelContents} (none : Content.values file.contents = [])
    (ordered : file.InOrder) : file.events = file.document.events := by
  rw [events, Content.eventsAll_inOrder (fun content _ => content.events_inOrder)
    (Content.valuesFirst_of_none none) ordered, none]
  rfl

end ChannelContents

section Parsing

variable {host : Host} {system : Bool} {front : List CString} {state : XmlParserState}

theorem element_closes {attributes : Attributes} {values : List Attributes}
    {nested : List PropertyElement} (inside : Inside system front state)
    (fine : ∀ mention ∈ (PropertyElement.property attributes values nested).mentions front,
      mention.Accepted host ∧ mention.Regular host)
    {after : XmlParserState}
    (done : parseEvents host state (PropertyElement.property attributes values nested).events =
      .ok after) : after.listProperty = none := by
  rw [PropertyElement.mentions] at fine
  obtain ⟨⟨accepted, regular⟩, below⟩ := List.forall_mem_cons.mp fine
  obtain ⟨entered, first, begun⟩ := inside.header accepted regular
  have carried : Carries host system (front ++ [elementName attributes])
      (PropertyElement.eventsAll nested)
      (assigned host (PropertyElement.mentionsAll (front ++ [elementName attributes]) nested)) := by
    apply carries_elements
    intro element member
    apply carries_element
    intro mention there
    exact below mention (PropertyElement.mem_mentionsAll.mpr ⟨element, member, there⟩)
  obtain ⟨filled, second, inside', _⟩ := carried entered begun.inside
  have elem : filled.curElem = .property := by
    rw [inside'.elem, if_neg (by simp)]
  rw [PropertyElement.events, first, second, parseEvents, handleEvent] at done
  have last := Handled.ok.inj done
  rw [← last, endElem_property elem inside'.path regular.plain]

theorem mentionsAll_single (attributes : Attributes) (inner : List Content) :
    PropertyElement.mentionsAll front (Content.property attributes inner).element =
      PropertyElement.mentions front
        (.property attributes (Content.values inner) (Content.elements inner)) :=
  List.append_nil _

theorem property_read {attributes : Attributes} {inner : List Content}
    (inside : Inside system front state)
    (regular : ∀ mention ∈ PropertyElement.mentionsAll front
      (Content.property attributes inner).element, mention.Regular host)
    (ordered : (Content.property attributes inner).inOrder = true)
    {rest : List MarkupEvent} {last : XmlParserState}
    (done : parseEvents host state ((Content.property attributes inner).events ++ rest) =
      .ok last) :
    ∃ middle, parseEvents host middle rest = .ok last ∧ Inside system front middle ∧
      middle.listProperty = none := by
  have events := Content.events_inOrder _ ordered attributes inner rfl
  rw [events] at done
  rw [mentionsAll_single] at regular
  have accepted := tellsAccepted_element _ front regular state rest last inside done
  have fine : ∀ mention ∈ PropertyElement.mentions front
      (.property attributes (Content.values inner) (Content.elements inner)),
      mention.Accepted host ∧ mention.Regular host := by
    intro mention member
    exact ⟨accepted mention member, regular mention member⟩
  obtain ⟨middle, parsed, inside', _⟩ := carries_element _ front fine state inside
  have whole := parsed []
  rw [List.append_nil] at whole
  refine ⟨middle, ?_, inside', element_closes inside fine whole⟩
  rw [← parsed rest]
  exact done

theorem value_refused (inside : Inside system front state) (closed : state.listProperty = none)
    (attributes : Attributes) (after : XmlParserState) :
    startElem host state "value".toList attributes ≠ .ok after := by
  intro done
  rw [startElem, inside.elem] at done
  by_cases top : front = []
  · rw [if_pos top] at done
    cases done
  · rw [if_neg top] at done
    dsimp only at done
    rw [if_neg (by decide), closed] at done
    cases done

def TellsOrder (host : Host) (system : Bool) (content : Content) : Prop :=
  ∀ front state rest last, Inside system front state →
    (∀ mention ∈ PropertyElement.mentionsAll front content.element, mention.Regular host) →
    parseEvents host state (content.events ++ rest) = .ok last → content.inOrder = true

theorem mentionsAll_property (attributes : Attributes) (inner rest : List Content) :
    PropertyElement.mentionsAll front (Content.elements (.property attributes inner :: rest)) =
      PropertyElement.mentionsAll front (Content.property attributes inner).element ++
        PropertyElement.mentionsAll front (Content.elements rest) := by
  rw [mentionsAll_single]
  rfl

theorem contents_closed {contents : List Content}
    (each : ∀ content ∈ contents, TellsOrder host system content)
    (inside : Inside system front state) (closed : state.listProperty = none)
    (regular : ∀ mention ∈ PropertyElement.mentionsAll front (Content.elements contents),
      mention.Regular host)
    {rest : List MarkupEvent} {last : XmlParserState}
    (done : parseEvents host state (Content.eventsAll contents ++ rest) = .ok last) :
    Content.values contents = [] ∧ Content.inOrderAll contents = true := by
  induction contents generalizing state with
  | nil => exact ⟨rfl, rfl⟩
  | cons content others ih =>
      rw [Content.eventsAll, List.append_assoc] at done
      cases content with
      | value attributes =>
          change parseEvents host state (.startElement "value".toList attributes :: _) = _ at done
          rw [parseEvents, handleEvent] at done
          cases started : startElem host state "value".toList attributes with
          | ok after => exact absurd started (value_refused inside closed attributes after)
          | _ =>
              rw [started] at done
              cases done
      | property attributes inner =>
          rw [mentionsAll_property] at regular
          obtain ⟨here, later⟩ := List.forall_mem_append.mp regular
          have ordered := each _ List.mem_cons_self front state _ last inside here done
          obtain ⟨middle, next, inside', closed'⟩ := property_read inside here ordered done
          obtain ⟨none, following⟩ :=
            ih (fun other member => each other (List.mem_cons_of_mem _ member)) inside' closed'
              later next
          refine ⟨none, ?_⟩
          rw [Content.inOrderAll, ordered, following]
          rfl

theorem contents_begun {parts : List CString} {array : Prop} {value : GValue}
    {before : XmlParserState} {contents : List Content}
    (each : ∀ content ∈ contents, TellsOrder host system content)
    (writable : Writable parts) (begun : Begun system parts array value before state)
    (arrays : Content.values contents ≠ [] → array)
    (regular : ∀ mention ∈ PropertyElement.mentionsAll parts (Content.elements contents),
      mention.Regular host)
    {rest : List MarkupEvent} {last : XmlParserState}
    (done : parseEvents host state (Content.eventsAll contents ++ rest) = .ok last) :
    Content.valuesFirst contents = true ∧ Content.inOrderAll contents = true := by
  induction contents generalizing value state with
  | nil => exact ⟨rfl, rfl⟩
  | cons content others ih =>
      have rest_each := fun other member => each other (List.mem_cons_of_mem content member)
      cases content with
      | value attributes =>
          have isArray : array := arrays (List.cons_ne_nil _ _)
          rw [Content.eventsAll, List.append_assoc] at done
          rcases xmlHandleValue_itemValue host attributes with
            ⟨_, refused⟩ | ⟨parsed, given, _⟩
          · change parseEvents host state (.startElement "value".toList attributes :: _) = _ at done
            rw [parseEvents, handleEvent, begun.startElem_value writable.full isArray] at done
            cases outcome : xmlHandleValue host state attributes with
            | ok after => exact absurd outcome (refused state after)
            | _ =>
                rw [outcome] at done
                cases done
          · obtain ⟨middle, first, grown⟩ := begun.item writable isArray given
            change parseEvents host state (valueEvents attributes ++ _) = _ at done
            rw [first] at done
            exact ih rest_each grown (fun _ => isArray) regular done
      | property attributes inner =>
          rw [mentionsAll_property] at regular
          obtain ⟨here, later⟩ := List.forall_mem_append.mp regular
          rw [Content.eventsAll, List.append_assoc] at done
          have ordered := each _ List.mem_cons_self parts state _ last begun.inside here done
          obtain ⟨middle, next, inside', closed'⟩ := property_read begun.inside here ordered done
          obtain ⟨none, following⟩ := contents_closed rest_each inside' closed' later next
          refine ⟨?_, ?_⟩
          · rw [Content.valuesFirst, none]
            rfl
          · rw [Content.inOrderAll, ordered, following]
            rfl

theorem tellsOrder_content (content : Content) : TellsOrder host system content := by
  induction content using Content.byContents with
  | value attributes =>
      intro front state rest last _ _ _
      rfl
  | property attributes contents ih =>
      intro front state rest last inside regular done
      rw [mentionsAll_single, PropertyElement.mentions] at regular
      obtain ⟨own, below⟩ := List.forall_mem_cons.mp regular
      rw [Content.events, List.cons_append, List.append_assoc, parseEvents, handleEvent,
        startElem_element host inside.elem] at done
      cases outcome : xmlHandleProperty host state attributes with
      | ok entered =>
          rw [outcome] at done
          have opens := opens_of_ok inside own.free own.plain own.short outcome
          have writable := inside.writable opens.named own.plain own.short
          obtain ⟨other, same, begun⟩ := xmlHandleProperty_begun inside opens own.free writable
          rw [outcome] at same
          cases same
          obtain ⟨first, ordered⟩ := contents_begun ih writable begun own.array below done
          rw [Content.inOrder, first, ordered]
          rfl
      | _ =>
          rw [outcome] at done
          cases done

/-- A file without lock attributes that is read without error has the values of every
array first. -/
theorem ChannelContents.inOrder_of_read {file : ChannelContents} {last : XmlParserState}
    (open' : lockedState host file.attributes = none)
    (regular : ∀ mention ∈ file.document.mentions, mention.Regular host)
    (read : parseEvents host (startState .root system) file.events = .ok last) :
    file.InOrder := by
  rw [ChannelContents.events, parseEvents, handleEvent] at read
  cases started : startElem host (startState .root system) "channel".toList file.attributes with
  | ok after =>
      rw [started] at read
      have free : lockedState host file.document.attributes = none := open'
      have opened : startElem host (startState .root system) "channel".toList file.attributes =
          .ok { startState .root system with curElem := .channel } :=
        startElem_open .root system free started
      have entered := Handled.ok.inj (started.symm.trans opened)
      rw [entered] at read
      exact (contents_closed (fun content _ => tellsOrder_content content)
        (inside_channel unlocked_root system) rfl regular read).2
  | _ =>
      rw [started] at read
      cases read

end Parsing

end Esconf
