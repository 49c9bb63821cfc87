import Esconf.RereadDocument
import Esconf.Library.TreeWalk

/-! What is read from a written file over properties that are locked, element by element.
The parser does not open the array of a locked property; the values of one that is not
empty go to whatever array is open there, or end the reading. -/

namespace Esconf

open NamedTree

/-- The start of the element of a property, and the array that is open there. -/
structure Opening where
  path : List CString
  value : GValue
  array : Option (List CString)

def appendAll (items : List GValue) (slot : GValue) : GValue :=
  items.foldl (fun slot item => ptrArrayAdd item slot) slot

theorem appendAll_ptrArray (items elements : List GValue) :
    appendAll items (.ptrArray elements) = .ptrArray (elements ++ items) := by
  induction items generalizing elements with
  | nil => rw [List.append_nil]; rfl
  | cons item rest ih =>
      rw [appendAll, List.foldl_cons]
      exact (ih _).trans (by rw [List.append_assoc, List.singleton_append])

section Openings

variable (locked : List CString → Bool)

def openInside (opening : Opening) : Option (List CString) :=
  if !locked opening.path && isArray opening.value then some opening.path else opening.array

mutual

/-- The elements of a file in their order, below the elements of the given names. The
array that is open at an element stays so for the first one in it. -/
def openings (front : List CString) (array : Option (List CString)) : PropTree → List Opening
  | .node name prop children =>
    ⟨front ++ [name], prop.value, array⟩ ::
      openingsAll (front ++ [name]) (openInside locked ⟨front ++ [name], prop.value, array⟩) children

def openingsAll (front : List CString) (array : Option (List CString)) :
    List PropTree → List Opening
  | [] => []
  | child :: rest => openings front array child ++ openingsAll front none rest

end

variable (host : Host)

namespace Opening

def wanted (opening : Opening) : GValue :=
  if locked opening.path then .invalid else reread host opening.value

def spills (opening : Opening) : Bool :=
  locked opening.path && !(writtenItems opening.value).isEmpty

/-- The user values after an element, without what is nested in it; nothing if the
reading ends there. -/
def read (opening : Opening) (values : List CString → GValue) : Option (List CString → GValue) :=
  if locked opening.path then
    if writtenItems opening.value = [] then some values
    else opening.array.map fun array => Function.update values array
      (appendAll ((writtenItems opening.value).map (rereadScalar host)) (values array))
  else some (Function.update values opening.path (reread host opening.value))

end Opening

/-- The user values after all elements, and whether they are read to the end. -/
def readAll : List Opening → (List CString → GValue) → (List CString → GValue) × Bool
  | [], values => (values, true)
  | opening :: rest, values =>
    match opening.read locked host values with
    | some next => readAll rest next
    | none => (values, false)

/-- The first locked property with a nonempty array, if there is any, stands where no array
is open, and no property behind it that is not locked has a value. -/
def LocksKeep : List Opening → Prop
  | [] => True
  | opening :: rest =>
    if opening.spills locked then
      opening.array = none ∧
        ∀ later ∈ rest, locked later.path = true ∨ reread host later.value = .invalid
    else LocksKeep rest

def Anchored : List (List CString) → List Opening → Prop
  | _, [] => True
  | known, opening :: rest =>
    (∀ array, opening.array = some array → array ∈ known) ∧
      Anchored (if !locked opening.path && isArray opening.value then opening.path :: known
        else known) rest

variable {locked host}

theorem readAll_append {front back : List Opening} {values next : List CString → GValue}
    (done : readAll locked host front values = (next, true)) :
    readAll locked host (front ++ back) values = readAll locked host back next := by
  induction front generalizing values with
  | nil =>
      cases done
      rfl
  | cons opening rest ih =>
      rw [readAll] at done
      rw [List.cons_append, readAll]
      cases here : opening.read locked host values with
      | none =>
          rw [here] at done
          cases done
      | some middle =>
          rw [here] at done
          exact ih done

theorem readAll_stops {front : List Opening} {values next : List CString → GValue}
    (done : readAll locked host front values = (next, false)) (back : List Opening) :
    readAll locked host (front ++ back) values = (next, false) := by
  induction front generalizing values with
  | nil => cases done
  | cons opening rest ih =>
      rw [readAll] at done
      rw [List.cons_append, readAll]
      cases here : opening.read locked host values with
      | none =>
          rw [here] at done
          exact done
      | some middle =>
          rw [here] at done
          exact ih done

theorem readAll_complete {list : List Opening} (plain : ∀ opening ∈ list,
    opening.spills locked = false) (values : List CString → GValue) :
    (readAll locked host list values).2 = true := by
  induction list generalizing values with
  | nil => rfl
  | cons opening rest ih =>
      have here : ∃ next, opening.read locked host values = some next := by
        have dry := plain opening List.mem_cons_self
        unfold Opening.spills at dry
        unfold Opening.read
        cases lock : locked opening.path with
        | false => exact ⟨_, rfl⟩
        | true =>
            rw [lock, Bool.true_and, Bool.not_eq_false', List.isEmpty_iff] at dry
            rw [if_pos rfl, if_pos dry]
            exact ⟨values, rfl⟩
      obtain ⟨next, read⟩ := here
      rw [readAll, read]
      exact ih (fun other member => plain other (List.mem_cons_of_mem _ member)) next

theorem locksKeep_plain {list : List Opening} (plain : ∀ opening ∈ list,
    opening.spills locked = false) : LocksKeep locked host list := by
  induction list with
  | nil => trivial
  | cons opening rest ih =>
      rw [LocksKeep, if_neg (Bool.eq_false_iff.mp (plain opening List.mem_cons_self))]
      exact ih fun other member => plain other (List.mem_cons_of_mem _ member)

theorem Anchored.mono {known more : List (List CString)} {list : List Opening}
    (anchored : Anchored locked known list) (within : known ⊆ more) :
    Anchored locked more list := by
  induction list generalizing known more with
  | nil => trivial
  | cons opening rest ih =>
      refine ⟨fun array here => within (anchored.1 array here), ih anchored.2 ?_⟩
      split
      · exact List.cons_subset_cons _ within
      · exact within

theorem Anchored.append {known : List (List CString)} {front back : List Opening}
    (one : Anchored locked known front) (two : Anchored locked known back) :
    Anchored locked known (front ++ back) := by
  induction front generalizing known with
  | nil => exact two
  | cons opening rest ih =>
      refine ⟨one.1, ih one.2 (two.mono ?_)⟩
      split
      · exact List.subset_cons_self _ _
      · exact List.Subset.refl _

theorem anchored_openingsAll {front : List CString} {children : List PropTree}
    (each : ∀ child ∈ children, ∀ array known, (∀ open', array = some open' → open' ∈ known) →
      Anchored locked known (openings locked front array child))
    {array : Option (List CString)} {known : List (List CString)}
    (held : ∀ open', array = some open' → open' ∈ known) :
    Anchored locked known (openingsAll locked front array children) := by
  induction children generalizing array with
  | nil => trivial
  | cons child rest ih =>
      apply (each child List.mem_cons_self array known held).append
      apply ih (fun other member => each other (List.mem_cons_of_mem _ member))
      intro open' none
      cases none

theorem anchored_openings (node : PropTree) :
    ∀ front array known, (∀ open', array = some open' → open' ∈ known) →
      Anchored locked known (openings locked front array node) := by
  induction node using byChildren with
  | step name prop children ih =>
      intro front array known held
      refine ⟨held, anchored_openingsAll (fun child member => ih child member _) ?_⟩
      intro open' inside
      dsimp only
      unfold openInside at inside
      split at inside
      · next opens =>
          cases inside
          rw [if_pos opens]
          exact List.mem_cons_self
      · next closed =>
          rw [if_neg closed]
          exact held open' inside

theorem openingsAll_paths (front : List CString) (array : Option (List CString))
    (children : List PropTree)
    (each : ∀ child ∈ children, ∀ array,
      (openings locked front array child).map (fun opening => (opening.path, opening.value)) =
        (preorder (front ++ [child.key]) child).map fun entry => (entry.1, entry.2.value)) :
    (openingsAll locked front array children).map
        (fun opening => (opening.path, opening.value)) =
      (preorderAll front children).map fun entry => (entry.1, entry.2.value) := by
  induction children generalizing array with
  | nil => rfl
  | cons child rest ih =>
      rw [openingsAll, preorderAll, List.map_append, List.map_append,
        each child List.mem_cons_self,
        ih none fun other member => each other (List.mem_cons_of_mem _ member)]

theorem openings_paths (node : PropTree) :
    ∀ front array,
      (openings locked front array node).map (fun opening => (opening.path, opening.value)) =
        (preorder (front ++ [node.key]) node).map fun entry => (entry.1, entry.2.value) := by
  induction node using byChildren with
  | step name prop children ih =>
      intro front array
      rw [openings, preorder, List.map_cons, List.map_cons,
        openingsAll_paths _ _ _ fun child member => ih child member _]
      rfl

/-- Between the elements: those that follow have no value yet, and the known arrays are
read and will not be read again. -/
structure Ready (locked : List CString → Bool) (known : List (List CString))
    (values : List CString → GValue) (list : List Opening) : Prop where
  fresh : ∀ opening ∈ list, values opening.path = .invalid
  distinct : (list.map Opening.path).Nodup
  anchored : Anchored locked known list
  arrays : ∀ path ∈ known, (∃ elements, values path = .ptrArray elements) ∧
    path ∉ list.map Opening.path

namespace Ready

variable {known : List (List CString)} {values next : List CString → GValue} {opening : Opening}
  {rest : List Opening}

theorem cases (host : Host) (ready : Ready locked known values (opening :: rest)) :
    (locked opening.path = true ∧ writtenItems opening.value = [] ∧
      opening.read locked host values = some values) ∨
    (opening.spills locked = true ∧ opening.array = none ∧
      opening.read locked host values = none) ∨
    (∃ array elements, opening.spills locked = true ∧ opening.array = some array ∧
      array ∈ known ∧ values array = .ptrArray elements ∧
      opening.read locked host values = some (Function.update values array (.ptrArray
        (elements ++ (writtenItems opening.value).map (rereadScalar host))))) ∨
    (locked opening.path = false ∧ opening.read locked host values =
      some (Function.update values opening.path (reread host opening.value))) := by
  unfold Opening.read Opening.spills
  cases lock : locked opening.path with
  | false => exact Or.inr (Or.inr (Or.inr ⟨rfl, rfl⟩))
  | true =>
      rw [if_pos rfl]
      by_cases none : writtenItems opening.value = []
      · rw [if_pos none]
        exact Or.inl ⟨rfl, none, rfl⟩
      · have items : (writtenItems opening.value).isEmpty = false := by
          rw [List.isEmpty_eq_false_iff]
          exact none
        rw [if_neg none, items]
        cases opened : opening.array with
        | none => exact Or.inr (Or.inl ⟨rfl, rfl, rfl⟩)
        | some array =>
            have held := ready.anchored.1 array opened
            obtain ⟨⟨elements, value⟩, _⟩ := ready.arrays array held
            refine Or.inr (Or.inr (Or.inl ⟨array, elements, rfl, rfl, held, value, ?_⟩))
            rw [Option.map_some, value, appendAll_ptrArray]

theorem tail (ready : Ready locked known values (opening :: rest)) :
    opening.path ∉ rest.map Opening.path ∧ (rest.map Opening.path).Nodup :=
  List.nodup_cons.mp ready.distinct

theorem step (ready : Ready locked known values (opening :: rest))
    (read : opening.read locked host values = some next) :
    Ready locked (if !locked opening.path && isArray opening.value then opening.path :: known
      else known) next rest := by
  obtain ⟨apart, distinct⟩ := ready.tail
  have later : ∀ path ∈ known, path ∉ rest.map Opening.path := by
    intro path member inside
    exact (ready.arrays path member).2 (List.mem_cons_of_mem _ inside)
  have fresh : ∀ other ∈ rest, values other.path = .invalid := by
    intro other member
    exact ready.fresh other (List.mem_cons_of_mem _ member)
  rcases ready.cases host with
    ⟨lock, _, same⟩ | ⟨_, _, stops⟩ | ⟨array, elements, spills, _, held, value, added⟩ |
      ⟨free, set⟩
  · rw [same] at read
    cases read
    rw [lock]
    refine ⟨fresh, distinct, ?_, ?_⟩
    · have anchored := ready.anchored.2
      rw [lock] at anchored
      exact anchored
    · intro path member
      exact ⟨(ready.arrays path member).1, later path member⟩
  · rw [stops] at read
    cases read
  · have lock : locked opening.path = true := (Bool.and_eq_true_iff.mp spills).1
    rw [added] at read
    cases read
    rw [lock]
    refine ⟨?_, distinct, ?_, ?_⟩
    · intro other member
      rw [Function.update_of_ne]
      · exact fresh other member
      · intro same
        exact later array held (same ▸ List.mem_map_of_mem member)
    · have anchored := ready.anchored.2
      rw [lock] at anchored
      exact anchored
    · intro path member
      refine ⟨?_, later path member⟩
      by_cases same : path = array
      · rw [same, Function.update_self]
        exact ⟨_, rfl⟩
      · rw [Function.update_of_ne same]
        exact (ready.arrays path member).1
  · rw [set] at read
    cases read
    have kept : ∀ path ∈ known, path ≠ opening.path := by
      intro path member same
      exact (ready.arrays path member).2 (same ▸ List.mem_cons_self)
    refine ⟨?_, distinct, ready.anchored.2, ?_⟩
    · intro other member
      rw [Function.update_of_ne]
      · exact fresh other member
      · intro same
        exact apart (same ▸ List.mem_map_of_mem member)
    · have old : ∀ path ∈ known, (∃ elements, Function.update values opening.path
          (reread host opening.value) path = .ptrArray elements) ∧
          path ∉ rest.map Opening.path := by
        intro path member
        rw [Function.update_of_ne (kept path member)]
        exact ⟨(ready.arrays path member).1, later path member⟩
      intro path member
      split at member
      · next opens =>
          rcases List.mem_cons.mp member with rfl | before
          · have array := (Bool.and_eq_true_iff.mp opens).2
            rw [Function.update_self, reread, array]
            exact ⟨⟨_, rfl⟩, apart⟩
          · exact old path before
      · exact old path member

theorem grows (host : Host) (ready : Ready locked known values rest) {path : List CString}
    {elements : List GValue} (member : path ∈ known) (value : values path = .ptrArray elements) :
    ∃ more, (readAll locked host rest values).1 path = .ptrArray (elements ++ more) := by
  induction rest generalizing known values elements with
  | nil =>
      refine ⟨[], ?_⟩
      rw [List.append_nil]
      exact value
  | cons opening rest ih =>
      rw [readAll]
      cases read : opening.read locked host values with
      | none =>
          refine ⟨[], ?_⟩
          rw [List.append_nil]
          exact value
      | some next =>
          have within : path ∈ if !locked opening.path && isArray opening.value then
              opening.path :: known else known := by
            split
            · exact List.mem_cons_of_mem _ member
            · exact member
          have after : ∃ more, next path = .ptrArray (elements ++ more) := by
            rcases ready.cases host with
              ⟨_, _, same⟩ | ⟨_, _, stops⟩ | ⟨array, old, _, _, _, held, added⟩ | ⟨_, set⟩
            · rw [same] at read
              cases read
              exact ⟨[], by rw [List.append_nil, value]⟩
            · rw [stops] at read
              cases read
            · rw [added] at read
              cases read
              by_cases same : path = array
              · rw [← same, value] at held
                cases held
                rw [same, Function.update_self]
                exact ⟨_, rfl⟩
              · rw [Function.update_of_ne same]
                exact ⟨[], by rw [List.append_nil, value]⟩
            · rw [set] at read
              cases read
              rw [Function.update_of_ne]
              · exact ⟨[], by rw [List.append_nil, value]⟩
              · intro same
                exact (ready.arrays path member).2 (same ▸ List.mem_cons_self)
          obtain ⟨more, grown⟩ := after
          obtain ⟨further, whole⟩ := ih (ready.step read) within grown
          refine ⟨more ++ further, ?_⟩
          rw [← List.append_assoc]
          exact whole

theorem outside (host : Host) {list : List Opening} (ready : Ready locked known values list)
    {path : List CString} (unknown : path ∉ known) (apart : path ∉ list.map Opening.path) :
    (readAll locked host list values).1 path = values path := by
  induction list generalizing known values with
  | nil => rfl
  | cons opening rest ih =>
      have own : path ≠ opening.path := fun same => apart (same ▸ List.mem_cons_self)
      rw [readAll]
      cases read : opening.read locked host values with
      | none => rfl
      | some next =>
          have still : path ∉ if !locked opening.path && isArray opening.value then
              opening.path :: known else known := by
            split
            · exact List.not_mem_cons_of_ne_of_not_mem own unknown
            · exact unknown
          have later := ih (ready.step read) still
            fun inside => apart (List.mem_cons_of_mem _ inside)
          refine later.trans ?_
          rcases ready.cases host with
            ⟨_, _, same⟩ | ⟨_, _, stops⟩ | ⟨array, _, _, _, held, _, added⟩ | ⟨_, set⟩
          · rw [same] at read
            cases read
            rfl
          · rw [stops] at read
            cases read
          · rw [added] at read
            cases read
            apply Function.update_of_ne
            intro same
            exact unknown (same ▸ held)
          · rw [set] at read
            cases read
            exact Function.update_of_ne own _ _

theorem readAll_iff {list : List Opening} (ready : Ready locked known values list) :
    ((∀ opening ∈ list, (readAll locked host list values).1 opening.path =
        opening.wanted locked host) ∧
      ∀ path, path ∉ list.map Opening.path →
        (readAll locked host list values).1 path = values path) ↔ LocksKeep locked host list := by
  induction list generalizing known values with
  | nil => exact iff_of_true ⟨nofun, fun _ _ => rfl⟩ trivial
  | cons opening rest ih =>
      obtain ⟨apart, _⟩ := ready.tail
      have untouched : ∀ {next : List CString → GValue} {path : List CString},
          path ∉ rest.map Opening.path → path ≠ opening.path →
          next path = values path → path ∉ (opening :: rest).map Opening.path := by
        intro next path outside other _ inside
        rcases List.mem_cons.mp inside with same | later
        · exact other same
        · exact outside later
      -- What reading the element wrote is its own value, so the rest decides.
      have settled : ∀ next : List CString → GValue,
          opening.read locked host values = some next →
          opening.spills locked = false →
          next opening.path = opening.wanted locked host →
          (∀ path, path ≠ opening.path → next path = values path) →
          (((∀ other ∈ opening :: rest,
              (readAll locked host (opening :: rest) values).1 other.path =
                other.wanted locked host) ∧
            ∀ path, path ∉ (opening :: rest).map Opening.path →
              (readAll locked host (opening :: rest) values).1 path = values path) ↔
            LocksKeep locked host (opening :: rest)) := by
        intro next read plain own others
        have same : readAll locked host (opening :: rest) values =
            readAll locked host rest next := by
          rw [readAll, read]
        rw [same, LocksKeep, if_neg (Bool.eq_false_iff.mp plain), ← ih (ready.step read)]
        constructor
        · intro each
          refine ⟨fun other member => each.1 other (List.mem_cons_of_mem _ member), ?_⟩
          intro path outside
          by_cases here : path = opening.path
          · rw [here, own]
            exact each.1 opening List.mem_cons_self
          · rw [others path here]
            exact each.2 path (untouched outside here (others path here))
        · intro each
          refine ⟨?_, ?_⟩
          · intro other member
            rcases List.mem_cons.mp member with here | later
            · rw [here, each.2 _ apart]
              exact own
            · exact each.1 other later
          · intro path outside
            have here : path ≠ opening.path := fun same => outside (same ▸ List.mem_cons_self)
            rw [each.2 path fun inside => outside (List.mem_cons_of_mem _ inside)]
            exact others path here
      -- Passed over; the end of the reading; spilled into an open array; free.
      rcases ready.cases host with
        ⟨lock, none, read⟩ | ⟨spills, closed, stops⟩ |
          ⟨array, elements, spills, open', held, value, added⟩ | ⟨free, set⟩
      · apply settled values read
        · rw [Opening.spills, none, lock]
          rfl
        · rw [Opening.wanted, if_pos lock]
          exact ready.fresh opening List.mem_cons_self
        · exact fun _ _ => rfl
      · have same : readAll locked host (opening :: rest) values = (values, false) := by
          rw [readAll, stops]
        have lock : locked opening.path = true := (Bool.and_eq_true_iff.mp spills).1
        rw [same, LocksKeep, if_pos spills]
        constructor
        · intro each
          refine ⟨closed, ?_⟩
          intro later member
          have wanted := each.1 later (List.mem_cons_of_mem _ member)
          dsimp only at wanted
          rw [ready.fresh later (List.mem_cons_of_mem _ member), Opening.wanted] at wanted
          split at wanted
          · next locks => exact Or.inl locks
          · exact Or.inr wanted.symm
        · intro keeps
          refine ⟨?_, fun _ _ => rfl⟩
          intro other member
          dsimp only
          rw [ready.fresh other member, Opening.wanted]
          rcases List.mem_cons.mp member with here | later
          · rw [here, if_pos lock]
          · rcases keeps.2 other later with locks | none
            · rw [if_pos locks]
            · rw [none, ite_self]
      · have same : readAll locked host (opening :: rest) values =
            readAll locked host rest (Function.update values array (.ptrArray
              (elements ++ (writtenItems opening.value).map (rereadScalar host)))) := by
          rw [readAll, added]
        rw [LocksKeep, if_pos spills, open']
        apply iff_of_false
        · intro each
          have kept := each.2 array (ready.arrays array held).2
          have within : array ∈ if !locked opening.path && isArray opening.value then
              opening.path :: known else known := by
            split
            · exact List.mem_cons_of_mem _ held
            · exact held
          obtain ⟨more, grown⟩ :=
            (ready.step added).grows host within (Function.update_self _ _ _)
          rw [same, grown, value] at kept
          have items : writtenItems opening.value ≠ [] := by
            intro none
            rw [Opening.spills, none, List.isEmpty_nil, Bool.not_true, Bool.and_false] at spills
            cases spills
          have lists := GValue.ptrArray.inj kept
          rw [List.append_assoc] at lists
          have nothing := List.append_cancel_left (lists.trans (List.append_nil _).symm)
          exact items (List.map_eq_nil_iff.mp (List.append_eq_nil_iff.mp nothing).1)
        · intro keeps
          cases keeps.1
      · apply settled _ set
        · rw [Opening.spills, free]
          rfl
        · rw [Function.update_self, Opening.wanted, if_neg (by simp [free])]
        · intro path other
          exact Function.update_of_ne other _ _

end Ready

section Tree

variable {tree : PropTree}

theorem openings_tree (tree : PropTree) :
    (openingsAll locked [] none tree.children).map
        (fun opening => (opening.path, opening.value)) =
      (preorderAll [] tree.children).map fun entry => (entry.1, entry.2.value) :=
  openingsAll_paths [] none tree.children fun child _ => openings_paths child []

theorem openings_tree_paths (tree : PropTree) :
    (openingsAll locked [] none tree.children).map Opening.path =
      (preorderAll [] tree.children).map Prod.fst := by
  have paths := congrArg (List.map Prod.fst) (@openings_tree locked tree)
  rw [List.map_map, List.map_map] at paths
  exact paths

theorem nodup_walk (distinct : Distinct tree) :
    ([] :: (preorderAll [] tree.children).map Prod.fst).Nodup := by
  obtain ⟨name, data, children⟩ := tree
  exact nodup_preorder distinct []

theorem ready_openings (distinct : Distinct tree) :
    Ready locked [] (fun _ => .invalid) (openingsAll locked [] none tree.children) := by
  constructor
  · exact fun _ _ => rfl
  · rw [openings_tree_paths]
    exact (List.nodup_cons.mp (nodup_walk distinct)).2
  · apply anchored_openingsAll fun child _ => anchored_openings child []
    intro open' none
    cases none
  · exact nofun

theorem mem_openings (distinct : Distinct tree) {path : List CString} :
    path ∈ (openingsAll locked [] none tree.children).map Opening.path ↔
      path ≠ [] ∧ (descend tree path).isSome = true := by
  have walk : path ∈ (preorder [] tree).map Prod.fst ↔ (descend tree path).isSome = true := by
    constructor
    · intro visited
      obtain ⟨entry, member, same⟩ := List.mem_map.mp visited
      have found : (entry.1, entry.2) ∈ preorder [] tree := member
      obtain ⟨more, node, whole, here, _⟩ := (mem_preorder distinct).mp found
      rw [← same, whole, List.nil_append, here]
      rfl
    · intro there
      obtain ⟨node, here⟩ := Option.isSome_iff_exists.mp there
      exact List.mem_map.mpr
        ⟨(path, node.data), (mem_preorder distinct).mpr ⟨path, node, rfl, here, rfl⟩, rfl⟩
  have root := (List.nodup_cons.mp (nodup_walk distinct)).1
  rw [openings_tree_paths, ← walk]
  obtain ⟨name, data, children⟩ := tree
  rw [preorder, List.map_cons, List.mem_cons]
  constructor
  · intro inside
    refine ⟨?_, Or.inr inside⟩
    intro none
    exact root (none ▸ inside)
  · intro found
    exact found.2.resolve_left found.1

theorem openings_value (distinct : Distinct tree) {opening : Opening}
    (member : opening ∈ openingsAll locked [] none tree.children) :
    opening.value = (tree.slot opening.path).value := by
  have inside : (opening.path, opening.value) ∈
      (preorderAll [] tree.children).map fun entry => (entry.1, entry.2.value) := by
    rw [← @openings_tree locked]
    exact List.mem_map.mpr ⟨opening, member, rfl⟩
  obtain ⟨entry, visited, same⟩ := List.mem_map.mp inside
  have paths : entry.1 = opening.path := congrArg Prod.fst same
  have values : entry.2.value = opening.value := congrArg Prod.snd same
  have walked : (entry.1, entry.2) ∈ preorder [] tree := by
    obtain ⟨name, data, children⟩ := tree
    exact List.mem_cons_of_mem _ visited
  obtain ⟨more, node, whole, here, held⟩ := (mem_preorder distinct).mp walked
  have slot : tree.slot more = node.data := lookup_of_descend here
  rw [← paths, whole, List.nil_append, slot, held, values]

/-- The elements of a tree are read as wanted, and nothing else, exactly if the locks keep. -/
theorem readAll_tree (host : Host) (distinct : Distinct tree) :
    (∀ path, path ≠ [] → (readAll locked host (openingsAll locked [] none tree.children)
        fun _ => .invalid).1 path =
          if locked path then .invalid else reread host (tree.slot path).value) ↔
      LocksKeep locked host (openingsAll locked [] none tree.children) := by
  have ready := @ready_openings locked tree distinct
  have rest : ∀ path, path ∉ (openingsAll locked [] none tree.children).map Opening.path →
      (readAll locked host (openingsAll locked [] none tree.children)
        fun _ => .invalid).1 path = .invalid := by
    intro path apart
    exact ready.outside host List.not_mem_nil apart
  rw [← ready.readAll_iff, and_iff_left rest]
  constructor
  · intro each opening member
    have full := ((mem_openings distinct).mp (List.mem_map_of_mem member)).1
    rw [each opening.path full, Opening.wanted, openings_value distinct member]
  · intro each path full
    by_cases inside : path ∈ (openingsAll locked [] none tree.children).map Opening.path
    · obtain ⟨opening, member, rfl⟩ := List.mem_map.mp inside
      rw [each opening member, Opening.wanted, openings_value distinct member]
    · have missing : descend tree path = none := by
        rw [mem_openings distinct, not_and] at inside
        exact Option.not_isSome_iff_eq_none.mp (inside full)
      have blank : tree.slot path = .blank := lookup_of_missing missing
      rw [rest path inside, blank]
      exact (ite_self _).symm

end Tree

end Openings

end Esconf
