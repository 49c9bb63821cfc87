import Esconf.ElementSpots

/-! The grammar of arrays: a value element stands in a property element that is an array. The
parser remembers one array instead of a stack of elements, and forgets it with the first property
element that ends. -/

namespace Esconf

open NamedTree

namespace MarkupElement

mutual

def grammatical (inArray : Bool) : MarkupElement → Bool
  | value _ contents => inArray && grammaticalAll false contents
  | property attributes contents => grammaticalAll (arrayTyped attributes) contents

def grammaticalAll (inArray : Bool) : List MarkupElement → Bool
  | [] => true
  | element :: rest => grammatical inArray element && grammaticalAll inArray rest

end

mutual

def valuesFirst (behind : Bool) : MarkupElement → Bool
  | value _ contents => !behind && contents.isEmpty
  | property _ contents => valuesFirstAll false contents

def valuesFirstAll (behind : Bool) : List MarkupElement → Bool
  | [] => true
  | element :: rest => valuesFirst behind element && valuesFirstAll (behind || !element.isValue) rest

end

mutual

/-- Some value element is not empty, or stands where no array is known: in none, or behind a
property element that is its sibling or that of a property around it inside the array. -/
def strays (known : Bool) : MarkupElement → Bool
  | value _ contents => !known || !contents.isEmpty
  | property attributes contents => straysAll (known || arrayTyped attributes) contents

def straysAll (known : Bool) : List MarkupElement → Bool
  | [] => false
  | element :: rest => strays known element || straysAll (known && element.isValue) rest

end

def values : List MarkupElement → List Attributes
  | [] => []
  | value attributes _ :: rest => attributes :: values rest
  | property _ _ :: rest => values rest

mutual

/-- The property elements in the order of their start tags, each with its own values. -/
def mentions (front : List CString) : MarkupElement → List Mention
  | value _ contents => mentionsAll front contents
  | property attributes contents =>
    ⟨front ++ [elementName attributes], attributes, values contents⟩ ::
      mentionsAll (front ++ [elementName attributes]) contents

def mentionsAll (front : List CString) : List MarkupElement → List Mention
  | [] => []
  | element :: rest => mentions front element ++ mentionsAll front rest

end

theorem mem_mentionsAll {front : List CString} {contents : List MarkupElement}
    {mention : Mention} :
    mention ∈ mentionsAll front contents ↔ ∃ element ∈ contents, mention ∈ mentions front element := by
  induction contents with
  | nil => simp [mentionsAll]
  | cons element rest ih => simp [mentionsAll, ih]

end MarkupElement

def Spot.inside (front : List CString) : Spot :=
  ⟨partsName front, if front = [] then .channel else .property⟩

/-- The path fits into its buffer; in a user file the property is not locked, and has no lock
attributes. -/
structure Mention.Ordinary (host : Host) (system : Bool) (locked : List CString → Bool)
    (mention : Mention) : Prop where
  short : (partsName mention.path).length < maxPropPath
  free : system = false → lockedState host mention.attributes = none
  unlocked : system = false → locked mention.path = false

section Ordinary

variable {host : Host} {system : Bool} {locked : List CString → Bool} {front : List CString}

theorem Spot.inside_enter {name : CString}
    (short : (partsName (front ++ [name])).length < maxPropPath) :
    (Spot.inside front).enter name = Spot.inside (front ++ [name]) := by
  have apart : front ++ [name] ≠ [] := by simp
  unfold Spot.enter Spot.inside
  rw [elementPath_snoc short, if_neg apart]

theorem Spot.inside_leave {name : CString} (plain : '/' ∉ name) :
    (Spot.inside (front ++ [name])).leave = Spot.inside front := by
  have apart : front ++ [name] ≠ [] := by simp
  have slash : '/' ∈ partsName (front ++ [name]) := by
    rw [partsName_snoc]
    simp
  have top : partsName front = [] ↔ front = [] := by
    cases front with
    | nil => simp [partsName]
    | cons first rest => simp [partsName]
  unfold Spot.leave Spot.inside
  rw [if_neg apart]
  dsimp only
  rw [if_pos slash, uptoLastSlash_snoc front name plain]
  simp only [top]

variable {attributes : Attributes} {values : List Attributes}

theorem ordinary_passes (writable : Writable (front ++ [elementName attributes]))
    (ordinary : Mention.Ordinary host system locked
      ⟨front ++ [elementName attributes], attributes, values⟩) :
    (Spot.inside front).passes system locked attributes = false := by
  unfold Spot.passes
  rw [Spot.inside_enter writable.short]
  cases system with
  | true => rfl
  | false =>
      change locked (nameParts (partsName _)) = false
      rw [writable.nameParts_eq]
      exact ordinary.unlocked rfl

theorem ordinary_allows (ordinary : Mention.Ordinary host system locked
    ⟨front ++ [elementName attributes], attributes, values⟩) :
    (Spot.inside front).allows host system locked attributes = true := by
  have stands : ((Spot.inside front).elem == .channel ||
      (Spot.inside front).elem == .property) = true := by
    by_cases top : front = [] <;> simp [Spot.inside, top]
  unfold Spot.allows
  rw [stands]
  cases system with
  | true => rfl
  | false =>
      rw [ordinary.free rfl]
      simp

theorem ordinary_writes (writable : Writable (front ++ [elementName attributes]))
    (ordinary : Mention.Ordinary host system locked
      ⟨front ++ [elementName attributes], attributes, values⟩) :
    (Spot.inside front).writes host system locked attributes =
      [(front ++ [elementName attributes],
        fun _ => (startValue host attributes).getD .invalid)] := by
  unfold Spot.writes
  rw [ordinary_passes writable ordinary, Spot.inside_enter writable.short]
  change [(nameParts (partsName _), _)] = _
  rw [writable.nameParts_eq]

theorem ordinary_opensArray (writable : Writable (front ++ [elementName attributes]))
    (ordinary : Mention.Ordinary host system locked
      ⟨front ++ [elementName attributes], attributes, values⟩) :
    (Spot.inside front).opensArray system locked attributes = arrayTyped attributes := by
  unfold Spot.opensArray
  rw [ordinary_passes writable ordinary]
  exact Bool.and_true _

variable (host system locked)

structure OrdinaryAll (front : List CString) (contents : List MarkupElement) : Prop where
  named : ∀ name ∈ front, name ≠ [] ∧ '/' ∉ name
  valid : MarkupElement.ValidAll host contents
  each : ∀ mention ∈ MarkupElement.mentionsAll front contents,
    mention.Ordinary host system locked

variable {host system locked}

namespace OrdinaryAll

variable {element : MarkupElement} {contents rest : List MarkupElement}

theorem head (all : OrdinaryAll host system locked front (element :: rest)) :
    OrdinaryAll host system locked front [element] := by
  refine ⟨all.named, ⟨all.valid.1, trivial⟩, ?_⟩
  intro mention member
  obtain ⟨other, inside, there⟩ := MarkupElement.mem_mentionsAll.mp member
  rw [List.mem_singleton.mp inside] at there
  exact all.each mention (MarkupElement.mem_mentionsAll.mpr ⟨element, List.mem_cons_self, there⟩)

theorem tail (all : OrdinaryAll host system locked front (element :: rest)) :
    OrdinaryAll host system locked front rest := by
  refine ⟨all.named, all.valid.2, ?_⟩
  intro mention member
  obtain ⟨other, inside, there⟩ := MarkupElement.mem_mentionsAll.mp member
  exact all.each mention
    (MarkupElement.mem_mentionsAll.mpr ⟨other, List.mem_cons_of_mem _ inside, there⟩)

theorem property (all : OrdinaryAll host system locked front [.property attributes contents]) :
    Writable (front ++ [elementName attributes]) ∧
      Mention.Ordinary host system locked
        ⟨front ++ [elementName attributes], attributes, MarkupElement.values contents⟩ ∧
      OrdinaryAll host system locked (front ++ [elementName attributes]) contents := by
  obtain ⟨⟨opens, plain, inner⟩, _⟩ := all.valid
  have each := all.each
  rw [MarkupElement.mentionsAll, MarkupElement.mentionsAll, List.append_nil,
    MarkupElement.mentions, List.forall_mem_cons] at each
  have writable := writable_snoc all.named opens.named plain each.1.short
  exact ⟨writable, each.1, writable.named, inner, each.2⟩

end OrdinaryAll

theorem ordinary_read_all {contents : List MarkupElement}
    (each : ∀ element ∈ contents, ∀ front, OrdinaryAll host system locked front [element] →
      element.spotAfter (Spot.inside front) = Spot.inside front ∧ ∀ known,
        element.taken host system locked (Spot.inside front) known = !element.strays known) :
    ∀ front, OrdinaryAll host system locked front contents →
      MarkupElement.spotAfterAll (Spot.inside front) contents = Spot.inside front ∧ ∀ known,
        MarkupElement.takenAll host system locked (Spot.inside front) known contents =
          !MarkupElement.straysAll known contents := by
  induction contents with
  | nil => exact fun _ _ => ⟨rfl, fun _ => rfl⟩
  | cons element rest ih =>
      intro front all
      obtain ⟨stays, takes⟩ := each element List.mem_cons_self front all.head
      obtain ⟨stays', takes'⟩ :=
        ih (fun other member => each other (List.mem_cons_of_mem _ member)) front all.tail
      rw [MarkupElement.spotAfterAll, stays]
      refine ⟨stays', ?_⟩
      intro known
      rw [MarkupElement.takenAll, MarkupElement.straysAll, stays, takes, takes', Bool.not_or]

theorem ordinary_read (element : MarkupElement) : ∀ front,
    OrdinaryAll host system locked front [element] →
      element.spotAfter (Spot.inside front) = Spot.inside front ∧ ∀ known,
        element.taken host system locked (Spot.inside front) known = !element.strays known := by
  induction element using MarkupElement.byContents with
  | value attributes contents _ =>
      intro front _
      refine ⟨rfl, ?_⟩
      intro known
      rw [MarkupElement.taken, MarkupElement.strays, Bool.not_or, Bool.not_not, Bool.not_not]
  | property attributes contents ih =>
      intro front all
      obtain ⟨writable, ordinary, inner⟩ := all.property
      obtain ⟨stays, takes⟩ := ordinary_read_all ih _ inner
      have plain : '/' ∉ elementName attributes := (writable.named _ (by simp)).2
      constructor
      · rw [MarkupElement.spotAfter, Spot.inside_enter writable.short, stays,
          Spot.inside_leave plain]
      · intro known
        rw [MarkupElement.taken, MarkupElement.strays, ordinary_allows ordinary,
          ordinary_opensArray writable ordinary, Spot.inside_enter writable.short, takes,
          Bool.true_and]

end Ordinary

namespace MarkupElement

/-- Where the values stand in arrays, none strays exactly if they come first. -/
theorem strays_grammatical_all {contents : List MarkupElement}
    (each : ∀ element ∈ contents, ∀ inArray known behind, grammatical inArray element = true →
      (inArray = true → known = !behind) →
      (strays known element = false ↔ valuesFirst behind element = true)) :
    ∀ inArray known behind, grammaticalAll inArray contents = true →
      (inArray = true → known = !behind) →
      (straysAll known contents = false ↔ valuesFirstAll behind contents = true) := by
  induction contents with
  | nil => exact fun _ _ _ _ _ => iff_of_true rfl rfl
  | cons element rest ih =>
      intro inArray known behind fine open'
      rw [grammaticalAll, Bool.and_eq_true] at fine
      rw [straysAll, valuesFirstAll, Bool.or_eq_false_iff, Bool.and_eq_true,
        each element List.mem_cons_self inArray known behind fine.1 open',
        ih (fun other member => each other (List.mem_cons_of_mem _ member)) inArray
          (known && element.isValue) (behind || !element.isValue) fine.2]
      intro array
      rw [open' array]
      cases behind <;> cases element.isValue <;> rfl

theorem strays_grammatical (element : MarkupElement) : ∀ inArray known behind,
    grammatical inArray element = true → (inArray = true → known = !behind) →
    (strays known element = false ↔ valuesFirst behind element = true) := by
  induction element using byContents with
  | value attributes contents _ =>
      intro inArray known behind fine open'
      rw [grammatical, Bool.and_eq_true] at fine
      rw [strays, valuesFirst, open' fine.1]
      cases behind <;> cases contents.isEmpty <;> decide
  | property attributes contents ih =>
      intro inArray known behind fine _
      rw [strays, valuesFirst]
      refine strays_grammatical_all ih (arrayTyped attributes) _ false fine ?_
      intro array
      rw [array, Bool.or_true]
      rfl

end MarkupElement

def Mention.acts (host : Host) (mention : Mention) : List (List CString × (GValue → GValue)) :=
  (mention.path, fun _ => (startValue host mention.attributes).getD .invalid) ::
    mention.values.map fun item => (mention.path, ptrArrayAdd ((itemValue host item).getD .invalid))

section Grammatical

variable {host : Host} {system : Bool} {locked : List CString → Bool}

theorem values_behind {contents : List MarkupElement}
    (first : MarkupElement.valuesFirstAll true contents = true) :
    MarkupElement.values contents = [] := by
  induction contents with
  | nil => rfl
  | cons element rest ih =>
      rw [MarkupElement.valuesFirstAll, Bool.and_eq_true] at first
      cases element with
      | value attributes inner => cases first.1
      | property attributes inner => exact ih first.2

/-- Elements whose values come first in arrays do what the values and then the properties do. -/
theorem filed_grammatical_all {contents : List MarkupElement}
    (each : ∀ attributes inner, .property attributes inner ∈ contents → ∀ front known,
      OrdinaryAll host system locked front [.property attributes inner] →
      MarkupElement.grammaticalAll (arrayTyped attributes) inner = true →
      MarkupElement.valuesFirstAll false inner = true →
      MarkupElement.filed host system locked (Spot.inside front) known
          (.property attributes inner) =
        (MarkupElement.mentions front (.property attributes inner)).flatMap (Mention.acts host)) :
    ∀ inArray behind front known, OrdinaryAll host system locked front contents →
      MarkupElement.grammaticalAll inArray contents = true →
      MarkupElement.valuesFirstAll behind contents = true →
      (inArray = true → nameParts (partsName front) = front ∧
        (behind = false → known = some (partsName front))) →
      MarkupElement.filedAll host system locked (Spot.inside front) known contents =
        ((MarkupElement.values contents).map fun item =>
          (front, ptrArrayAdd ((itemValue host item).getD .invalid))) ++
          (MarkupElement.mentionsAll front contents).flatMap (Mention.acts host) := by
  induction contents with
  | nil => exact fun _ _ _ _ _ _ _ _ => rfl
  | cons element rest ih =>
      intro inArray behind front known all fine first open'
      have follows := ih fun attributes inner member =>
        each attributes inner (List.mem_cons_of_mem _ member)
      rw [MarkupElement.grammaticalAll, Bool.and_eq_true] at fine
      rw [MarkupElement.valuesFirstAll, Bool.and_eq_true] at first
      obtain ⟨here, fine⟩ := fine
      obtain ⟨front', first⟩ := first
      rw [MarkupElement.filedAll, MarkupElement.mentionsAll, List.flatMap_append,
        (ordinary_read element front all.head).1]
      cases element with
      | value attributes inner =>
          rw [MarkupElement.grammatical, Bool.and_eq_true] at here
          rw [MarkupElement.valuesFirst, Bool.and_eq_true, Bool.not_eq_true',
            List.isEmpty_iff] at front'
          obtain ⟨early, rfl⟩ := front'
          obtain ⟨parts, known'⟩ := open' here.1
          have kept : (if (MarkupElement.value attributes []).isValue = true then
              some (partsName front) else none) = some (partsName front) := rfl
          rw [early] at first
          rw [known' early, kept, follows inArray false front _ all.tail fine first fun _ =>
            ⟨parts, fun _ => rfl⟩]
          change (nameParts (partsName front), _) :: _ = _
          rw [parts]
          rfl
      | property attributes inner =>
          have behind' : (behind || !(MarkupElement.property attributes inner).isValue) = true :=
            Bool.or_true behind
          rw [behind'] at first
          rw [each attributes inner List.mem_cons_self front known all.head here front',
            follows inArray true front _ all.tail fine first fun array =>
              ⟨(open' array).1, fun wrong => Bool.noConfusion wrong⟩,
            values_behind first, MarkupElement.values, values_behind first]
          rfl

theorem filed_grammatical (element : MarkupElement) : ∀ attributes inner,
    element = .property attributes inner → ∀ front known,
      OrdinaryAll host system locked front [.property attributes inner] →
      MarkupElement.grammaticalAll (arrayTyped attributes) inner = true →
      MarkupElement.valuesFirstAll false inner = true →
      MarkupElement.filed host system locked (Spot.inside front) known
          (.property attributes inner) =
        (MarkupElement.mentions front (.property attributes inner)).flatMap
          (Mention.acts host) := by
  induction element using MarkupElement.byContents with
  | value attributes contents _ =>
      intro other inner same
      cases same
  | property attributes contents ih =>
      intro other inner same front known all fine first
      cases same
      obtain ⟨writable, ordinary, below⟩ := all.property
      rw [MarkupElement.filed, ordinary_writes writable ordinary,
        ordinary_opensArray writable ordinary, Spot.inside_enter writable.short,
        filed_grammatical_all (fun _ _ member => ih _ member _ _ rfl) (arrayTyped attributes)
          false _ _ below fine first]
      · rfl
      · intro array
        refine ⟨writable.nameParts_eq, fun _ => ?_⟩
        rw [if_pos array]
        rfl

end Grammatical

section Effects

variable {host : Host}

theorem perform_values (path : List CString) (items : List Attributes)
    (layer : List CString → GValue) :
    perform (items.map fun item => (path, ptrArrayAdd ((itemValue host item).getD .invalid)))
      layer = Function.update layer path (items.foldl
        (fun array item => ptrArrayAdd ((itemValue host item).getD .invalid) array)
          (layer path)) := by
  induction items generalizing layer with
  | nil => exact (Function.update_eq_self path layer).symm
  | cons item items ih =>
      rw [List.map_cons, List.foldl_cons]
      refine (ih _).trans ?_
      rw [Function.update_self, Function.update_idem]

theorem perform_mention (mention : Mention) (layer : List CString → GValue) :
    perform (mention.acts host) layer =
      Function.update layer mention.path (mention.gives host) := by
  refine (perform_values mention.path mention.values _).trans ?_
  rw [Function.update_self, Function.update_idem]
  rfl

theorem perform_mentions (mentions : List Mention) (layer : List CString → GValue) :
    perform (mentions.flatMap (Mention.acts host)) layer =
      Assignments.carryOut (fun value _ => value) (assigned host mentions) layer := by
  induction mentions generalizing layer with
  | nil => rfl
  | cons mention mentions ih =>
      rw [List.flatMap_cons, perform_append, perform_mention, ih]
      rfl

theorem carryOut_mention {before after : List Mention} {mention : Mention}
    (last : ∀ other ∈ after, other.path ≠ mention.path) (layer : List CString → GValue) :
    Assignments.carryOut (fun value _ => value) (assigned host (before ++ mention :: after)) layer
      mention.path = mention.gives host := by
  have none : Assignments.last (assigned host after) mention.path = none := by
    rw [← Option.not_isSome_iff_eq_none, Assignments.last_isSome]
    rintro ⟨value, member⟩
    obtain ⟨other, there, same⟩ := List.mem_map.mp member
    exact last other there (congrArg Prod.fst same)
  have given : Assignments.last (assigned host (before ++ mention :: after)) mention.path =
      some (mention.gives host) := by
    unfold assigned at none ⊢
    rw [List.map_append, List.map_cons, Assignments.last_append, Assignments.last_cons, none,
      if_pos rfl]
    rfl
  rw [@Assignments.carryOut_last _ _ _ _ (fun value _ => value) fun _ _ _ => rfl, given]
  rfl

theorem gives_array {mention : Mention} (array : arrayTyped mention.attributes = true) :
    mention.gives host =
      .ptrArray (mention.values.map fun item => (itemValue host item).getD .invalid) := by
  have start : (startValue host mention.attributes).getD .invalid = .ptrArray [] := by
    rw [startValue, beq_iff_eq.mp array]
    rfl
  rw [Mention.gives, start, foldl_ptrArrayAdd]
  rfl

end Effects

structure MarkupDocument where
  attributes : Attributes
  contents : List MarkupElement

namespace MarkupDocument

def events (document : MarkupDocument) : List MarkupEvent :=
  .startElement "channel".toList document.attributes ::
    (MarkupElement.eventsAll document.contents ++ [.endElement "channel".toList])

def Valid (host : Host) (document : MarkupDocument) : Prop :=
  MarkupElement.ValidAll host document.contents

def Accepted (host : Host) (channel : EsconfChannel) (system : Bool) (document : MarkupDocument)
    (last : XmlParserState) : Prop :=
  parseEvents host (startState channel system) document.events = .ok last

def Grammatical (document : MarkupDocument) : Prop :=
  MarkupElement.grammaticalAll false document.contents = true

def HoldsArrays (host : Host) (document : MarkupDocument) (layer : List CString → GValue) : Prop :=
  ∀ before mention after,
    MarkupElement.mentionsAll [] document.contents = before ++ mention :: after →
    arrayTyped mention.attributes = true → (∀ other ∈ after, other.path ≠ mention.path) →
    layer mention.path =
      .ptrArray (mention.values.map fun item => (itemValue host item).getD .invalid)

/-- The file is accepted exactly if it is grammatical, and then every array holds its values. -/
def ReadByGrammar (host : Host) (channel : EsconfChannel) (system : Bool)
    (document : MarkupDocument) : Prop :=
  ((∃ last, document.Accepted host channel system last) ↔ document.Grammatical) ∧
    ∀ last, document.Accepted host channel system last →
      document.HoldsArrays host (layerOf system last)

def lockedIn (channel : EsconfChannel) (path : List CString) : Bool :=
  (channel.properties.slot path).locked

def Opens (host : Host) (channel : EsconfChannel) (system : Bool) (document : MarkupDocument) :
    Prop :=
  ∃ opened, xmlHandleChannel host (startState channel system) document.attributes = .ok opened

def Ordinary (host : Host) (channel : EsconfChannel) (system : Bool) (document : MarkupDocument) :
    Prop :=
  document.Opens host channel system ∧
    ∀ mention ∈ MarkupElement.mentionsAll [] document.contents,
      mention.Ordinary host system (lockedIn channel)

def Taken (host : Host) (channel : EsconfChannel) (system : Bool) (document : MarkupDocument) :
    Prop :=
  document.Opens host channel system ∧
    MarkupElement.takenAll host system (lockedIn channel) Spot.top false document.contents = true

def Filed (host : Host) (channel : EsconfChannel) (system : Bool) (document : MarkupDocument) :
    List CString → GValue :=
  perform (MarkupElement.filedAll host system (lockedIn channel) Spot.top none document.contents)
    (layerOf system
      (xmlHandleChannel host (startState channel system) document.attributes).state)

/-- The values of a grammatical file come first, or a value of one that is not strays; in a file
that is not ordinary, the elements that are taken leave its arrays with their values, or one that
is not taken is in a file that is not grammatical. -/
def Unmistaken (host : Host) (channel : EsconfChannel) (system : Bool)
    (document : MarkupDocument) : Prop :=
  document.Ordinary host channel system ∧
      (document.Grammatical ∧ MarkupElement.valuesFirstAll false document.contents = true ∨
        ¬document.Grammatical ∧ MarkupElement.straysAll false document.contents = true) ∨
    ¬document.Ordinary host channel system ∧
      (document.Grammatical ∧ document.Taken host channel system ∧
          document.HoldsArrays host (document.Filed host channel system) ∨
        ¬document.Grammatical ∧ ¬document.Taken host channel system)

variable {host : Host} {channel : EsconfChannel} {system : Bool} {document : MarkupDocument}

theorem Opens.at_top (opens : document.Opens host channel system)
    (loadable : channel.locked = true → system = true) :
    ∃ opened, At system (lockedIn channel) Spot.top opened ∧ ArrayAt none opened ∧
      opened = (xmlHandleChannel host (startState channel system) document.attributes).state ∧
      ∀ rest, parseEvents host (startState channel system)
        (.startElement "channel".toList document.attributes :: rest) =
          parseEvents host opened rest := by
  obtain ⟨opened, handled⟩ := opens
  have start : startElem host (startState channel system) "channel".toList document.attributes =
      .ok opened := handled
  have entered : At system (lockedIn channel) Spot.top opened ∧ ArrayAt none opened := by
    have outcome := handled
    rcases xmlHandleChannel_cases host (startState channel system) document.attributes with
      ⟨error, read⟩ | read | ⟨kind, read⟩ <;> rw [read] at outcome <;> cases outcome
    · exact ⟨⟨rfl, loadable, rfl, rfl, XmlParserElem.noConfusion, cutPath_nil, fun _ _ => rfl⟩,
        rfl, rfl⟩
    · refine ⟨⟨rfl, fun _ => kind, rfl, rfl, XmlParserElem.noConfusion, cutPath_nil, ?_⟩, rfl, rfl⟩
      exact fun user => absurd (user.symm.trans kind) Bool.false_ne_true
  refine ⟨opened, entered.1, entered.2, ?_, parseEvents_start start⟩
  rw [handled]
  rfl

/-- A valid file is accepted exactly if it is taken, and does what its elements are to. -/
theorem Valid.accepted (valid : document.Valid host)
    (loadable : channel.locked = true → system = true) :
    (¬document.Taken host channel system ∧ ∀ last, ¬document.Accepted host channel system last) ∨
    (document.Taken host channel system ∧ ∃ last, document.Accepted host channel system last ∧
      layerOf system last = document.Filed host channel system) := by
  by_cases opens : document.Opens host channel system
  · obtain ⟨opened, here, array, state, start⟩ := opens.at_top loadable
    unfold Accepted events Taken Filed
    rw [← state]
    simp only [start]
    rcases reads_all (fun element _ => reads_one element) Spot.top none opened here array
        (fun some => absurd some Bool.false_ne_true) valid with
      ⟨refused, stops⟩ | ⟨takes, filled, read, _, _, layer⟩
    · left
      refine ⟨?_, stops _⟩
      rintro ⟨_, takes⟩
      exact Bool.false_ne_true (refused.symm.trans takes)
    · right
      refine ⟨⟨opens, takes⟩, endElem filled, ?_, ?_⟩
      · rw [read]
        rfl
      · rw [layerOf_endElem, layer]
  · refine .inl ⟨fun taken => opens taken.1, ?_⟩
    have refused : ∀ opened, startElem host (startState channel system) "channel".toList
        document.attributes ≠ .ok opened := fun opened done => opens ⟨opened, done⟩
    exact fun last => parseEvents_refused refused _ last

theorem Valid.readByGrammar_iff (valid : document.Valid host)
    (loadable : channel.locked = true → system = true) :
    document.ReadByGrammar host channel system ↔
      document.Grammatical ∧ document.Taken host channel system ∧
          document.HoldsArrays host (document.Filed host channel system) ∨
        ¬document.Grammatical ∧ ¬document.Taken host channel system := by
  unfold ReadByGrammar
  rcases valid.accepted loadable with ⟨untaken, refused⟩ | ⟨taken, last, read, layer⟩
  · have never : ¬∃ last, document.Accepted host channel system last :=
      fun ⟨last, read⟩ => refused last read
    constructor
    · intro right
      exact .inr ⟨mt right.1.mpr never, untaken⟩
    · rintro (⟨_, taken, _⟩ | ⟨wrong, _⟩)
      · exact absurd taken untaken
      · exact ⟨iff_of_false never wrong, fun last read => absurd read (refused last)⟩
  · constructor
    · intro right
      refine .inl ⟨right.1.mp ⟨last, read⟩, taken, ?_⟩
      rw [← layer]
      exact right.2 last read
    · rintro (⟨grammatical, _, holds⟩ | ⟨_, untaken⟩)
      · refine ⟨iff_of_true ⟨last, read⟩ grammatical, ?_⟩
        intro other read'
        obtain rfl : last = other := Handled.ok.inj (read.symm.trans read')
        rw [layer]
        exact holds
      · exact absurd taken untaken

theorem Ordinary.all (ordinary : document.Ordinary host channel system)
    (valid : document.Valid host) :
    OrdinaryAll host system (lockedIn channel) [] document.contents :=
  ⟨fun _ member => absurd member List.not_mem_nil, valid, ordinary.2⟩

theorem Ordinary.taken_iff (ordinary : document.Ordinary host channel system)
    (valid : document.Valid host) : document.Taken host channel system ↔
      MarkupElement.straysAll false document.contents = false := by
  have read := (ordinary_read_all (fun element _ => ordinary_read element) []
    (ordinary.all valid)).2 false
  have top : Spot.inside [] = Spot.top := rfl
  rw [Taken, and_iff_right ordinary.1, ← top, read, Bool.not_eq_true']

theorem Ordinary.holdsArrays (ordinary : document.Ordinary host channel system)
    (valid : document.Valid host) (grammatical : document.Grammatical)
    (first : MarkupElement.valuesFirstAll false document.contents = true) :
    document.HoldsArrays host (document.Filed host channel system) := by
  intro before mention after shape array newest
  have filed := filed_grammatical_all (fun _ _ _ => filed_grammatical _ _ _ rfl) false false []
    none (ordinary.all valid) grammatical first fun array => Bool.noConfusion array
  have top : Spot.inside [] = Spot.top := rfl
  rw [Filed, ← top, filed, perform_append, perform_mentions, shape, carryOut_mention newest,
    gives_array array]

end MarkupDocument

/-- A valid file is read as the grammar says exactly if its values come first in their arrays,
or if it is not grammatical and one of its values strays; if it is not ordinary, exactly if what
is taken of it is what the grammar says. -/
theorem array_grammar_iff (host : Host) (channel : EsconfChannel) (system : Bool)
    (document : MarkupDocument) (valid : document.Valid host)
    (loadable : channel.locked = true → system = true) :
    document.ReadByGrammar host channel system ↔ document.Unmistaken host channel system := by
  rw [valid.readByGrammar_iff loadable]
  unfold MarkupDocument.Unmistaken
  by_cases ordinary : document.Ordinary host channel system
  · have first_iff := fun grammatical => @MarkupElement.strays_grammatical_all document.contents
      (fun element _ => MarkupElement.strays_grammatical element) false false false grammatical
      fun array => Bool.noConfusion array
    have taken_iff := ordinary.taken_iff valid
    constructor
    · rintro (⟨grammatical, taken, _⟩ | ⟨wrong, untaken⟩)
      · exact .inl ⟨ordinary, .inl ⟨grammatical, (first_iff grammatical).mp (taken_iff.mp taken)⟩⟩
      · refine .inl ⟨ordinary, .inr ⟨wrong, ?_⟩⟩
        rw [taken_iff, Bool.not_eq_false] at untaken
        exact untaken
    · rintro (⟨_, ⟨grammatical, first⟩ | ⟨wrong, strays⟩⟩ | ⟨wrong, _⟩)
      · exact .inl ⟨grammatical, taken_iff.mpr ((first_iff grammatical).mpr first),
          ordinary.holdsArrays valid grammatical first⟩
      · refine .inr ⟨wrong, ?_⟩
        rw [taken_iff, Bool.not_eq_false]
        exact strays
      · exact absurd ordinary wrong
  · constructor
    · exact fun right => .inr ⟨ordinary, right⟩
    · rintro (⟨right, _⟩ | ⟨_, right⟩)
      · exact absurd right ordinary
      · exact right

def typedProperty (name type value : CString) (contents : List MarkupElement) : MarkupElement :=
  .property [("name".toList, name), ("type".toList, type), ("value".toList, value)] contents

def integerValue (value : CString) : MarkupElement :=
  .value [("type".toList, "int".toList), ("value".toList, value)] []

def fileOf (contents : List MarkupElement) : MarkupDocument :=
  ⟨[("name".toList, "c".toList), ("version".toList, "1.0".toList)], contents⟩

/-- An array whose values come before a property in it. -/
theorem array_grammar_values_first :
    (fileOf [typedProperty "a".toList "array".toList [] [integerValue "1".toList,
      integerValue "2".toList, typedProperty "b".toList "int".toList "3".toList []]]).ReadByGrammar
        (.bare []) .root false := by
  refine (array_grammar_iff (.bare []) .root false _ ?_ fun locked => locked).mpr
    (.inl ⟨⟨⟨_, rfl⟩, ?_⟩, .inl ⟨rfl, rfl⟩⟩)
  · refine ⟨⟨⟨rfl, by decide, by decide, rfl⟩, by decide, ?_⟩, trivial⟩
    refine ⟨⟨rfl, trivial⟩, ⟨rfl, trivial⟩, ?_, trivial⟩
    exact ⟨⟨rfl, by decide, by decide, rfl⟩, by decide, trivial⟩
  · refine List.forall_mem_cons.mpr ⟨⟨by decide, fun _ => rfl, fun _ => rfl⟩, ?_⟩
    refine List.forall_mem_cons.mpr ⟨⟨by decide, fun _ => rfl, fun _ => rfl⟩, ?_⟩
    exact fun _ member => absurd member List.not_mem_nil

/-- A value behind a property in its array is refused, and one in an integer inside an array is
taken into the array. -/
theorem array_grammar_mistaken :
    (fileOf [typedProperty "a".toList "array".toList []
        [typedProperty "b".toList "int".toList "3".toList [], integerValue "1".toList]]).Grammatical ∧
    (¬∃ last, (fileOf [typedProperty "a".toList "array".toList []
        [typedProperty "b".toList "int".toList "3".toList [], integerValue "1".toList]]).Accepted
          (.bare []) .root false last) ∧
    ¬(fileOf [typedProperty "a".toList "array".toList []
        [typedProperty "b".toList "int".toList "3".toList [integerValue "1".toList]]]).Grammatical ∧
    ∃ last, (fileOf [typedProperty "a".toList "array".toList []
        [typedProperty "b".toList "int".toList "3".toList [integerValue "1".toList]]]).Accepted
          (.bare []) .root false last ∧
      layerOf false last ["a".toList] = .ptrArray [.int 1] := by
  refine ⟨rfl, ?_, Bool.false_ne_true, _, rfl, rfl⟩
  rintro ⟨last, read⟩
  cases read

end Esconf
