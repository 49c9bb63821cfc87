import Esconf.PropTree
import Esconf.CNumber
import Esconf.Host

/-! Writing a channel: `esconf_format_xml_tag` and the walk of
`esconf_backend_perchannel_xml_write_node`. -/

namespace Esconf

open NamedTree

/-- Writing stops because a value is refused, or because of a NULL array or an
indentation too long for its buffer. -/
inductive WriteStop where
  | refused | fault
  deriving DecidableEq, Repr

variable (host : Host)

/-- `g_markup_escape_text` of a string that may be NULL, as `printf` prints it. -/
def escapeText : Option CString → CString
  | some text => host.markupEscape text
  | none => "(null)".toList

def typeValue (type value : CString) : CString :=
  " type=\"".toList ++ type ++ "\" value=\"".toList ++ value ++ "\"".toList

/-- The cases of `esconf_format_xml_tag` before the default. A gchar is asked for
as a guchar, which gives 0. -/
def formatXmlValue : GValue → Option CString
  | .string text => some (typeValue "string".toList (escapeText host text))
  | .uchar n => some (typeValue "uchar".toList (printNat n.toNat))
  | .char n => some (typeValue "char".toList (printNat (GValue.getUchar (.char n)).toNat))
  | .uint n => some (typeValue "uint".toList (printNat n.toNat))
  | .int n => some (typeValue "int".toList (printInt n.toInt))
  | .uint64 n => some (typeValue "uint64".toList (printNat n.toNat))
  | .int64 n => some (typeValue "int64".toList (printInt n.toInt))
  | .float bits =>
    some (typeValue "float".toList (host.printDouble (host.doubleOfFloat bits)))
  | .double bits => some (typeValue "double".toList (host.printDouble bits))
  | .boolean b => some (typeValue "bool".toList (if b then "true".toList else "false".toList))
  | _ => none

def formatElements (spaces : CString) : List GValue → Except WriteStop CString
  | [] => .ok []
  | element :: rest =>
    match formatXmlValue host element with
    | none => .error .refused
    | some text => (formatElements spaces rest).map fun later =>
      spaces ++ "  <value".toList ++ text ++ "/>\n".toList ++ later

/-- `esconf_format_xml_tag` for the value of a property: the text, and whether an
array was opened. -/
def formatXmlTag (spaces : CString) (value : GValue) : Except WriteStop (CString × Bool) :=
  match formatXmlValue host value with
  | some text => .ok (text, false)
  | none =>
    match value with
    | .strv list => .ok (" type=\"array\">\n".toList ++ list.flatMap fun text =>
        spaces ++ "  <value type=\"string\" value=\"".toList ++ host.markupEscape text ++
          "\"/>\n".toList, true)
    | .ptrArray elements => (formatElements host spaces elements).map fun text =>
        (" type=\"array\">\n".toList ++ text, true)
    -- The loop reads the length of the array through the NULL.
    | .ptrArrayNull => .error .fault
    | _ => .ok (" type=\"empty\"".toList, false)

/-- The depth `esconf_backend_perchannel_xml_write_node` goes on with. -/
def clampDepth (depth : Nat) : Nat :=
  if maxPropPath + 1 < depth * 2 then maxPropPath / 2 - 1 else depth

def spacesAt (depth : Nat) : CString := List.replicate (clampDepth depth * 2) ' '

mutual

/-- `esconf_backend_perchannel_xml_write_node`. -/
def writeNode (depth : Nat) : PropTree → Except WriteStop CString
  | .node name prop children =>
    if clampDepth depth * 2 < maxPropPath then
      (formatXmlTag host (spacesAt depth) prop.value).bind fun tag =>
        (writeNodes (clampDepth depth + 1) children).map fun below =>
          spacesAt depth ++ "<property name=\"".toList ++ host.markupEscape name ++ "\"".toList ++
            tag.1 ++
            (if tag.2 then [] else if children.isEmpty then "/>\n".toList else ">\n".toList) ++
            below ++
            (if tag.2 || !children.isEmpty then spacesAt depth ++ "</property>\n".toList else [])
    -- The terminating zero would be written behind `spaces`.
    else .error .fault

def writeNodes (depth : Nat) : List PropTree → Except WriteStop CString
  | [] => .ok []
  | child :: rest =>
    (writeNode depth child).bind fun first =>
      (writeNodes depth rest).map fun later => first ++ later

end

/-- The text `esconf_backend_perchannel_xml_flush_channel` writes. -/
def flushText (channelName : CString) (properties : PropTree) : Except WriteStop CString :=
  (writeNodes host 1 properties.children).map fun body =>
    "<?xml version=\"1.0\" encoding=\"UTF-8\"?>\n\n".toList ++
      ("<channel name=\"".toList ++ channelName ++ "\" version=\"1.0\">\n".toList) ++ body ++
        "</channel>\n".toList

/-- A value of a type that `esconf_format_xml_tag` has a case for. -/
def knownType : GValue → Bool
  | .string _ | .uchar _ | .char _ | .uint _ | .int _ | .uint64 _ | .int64 _ | .float _ | .double _
  | .boolean _ => true
  | _ => false

/-- A value that `esconf_format_xml_tag` does not refuse. -/
def formattable : GValue → Bool
  | .ptrArray elements => elements.all knownType
  | .ptrArrayNull => false
  | _ => true

mutual

def flushable (depth : Nat) : PropTree → Bool
  | .node _ prop children =>
    decide (clampDepth depth * 2 < maxPropPath) && formattable prop.value &&
      flushableAll (clampDepth depth + 1) children

def flushableAll (depth : Nat) : List PropTree → Bool
  | [] => true
  | child :: rest => flushable depth child && flushableAll depth rest

end

theorem formatXmlValue_isSome (value : GValue) :
    (formatXmlValue host value).isSome = knownType value := by
  cases value <;> rfl

theorem formatElements_isOk (spaces : CString) (elements : List GValue) :
    (formatElements host spaces elements).isOk = elements.all knownType := by
  induction elements with
  | nil => rfl
  | cons element rest ih =>
      rw [formatElements, List.all_cons, ← formatXmlValue_isSome host element, ← ih]
      cases formatXmlValue host element with
      | none => rfl
      | some text => cases formatElements host spaces rest <;> rfl

theorem formatXmlTag_isOk (spaces : CString) (value : GValue) :
    (formatXmlTag host spaces value).isOk = formattable value := by
  cases value with
  | ptrArray elements =>
      rw [formattable, ← formatElements_isOk host spaces]
      change ((formatElements host spaces elements).map _).isOk = _
      cases formatElements host spaces elements <;> rfl
  | _ => rfl

theorem writeNodes_isOk {depth : Nat} {nodes : List PropTree}
    (each : ∀ child ∈ nodes, ∀ depth, (writeNode host depth child).isOk = flushable depth child) :
    (writeNodes host depth nodes).isOk = flushableAll depth nodes := by
  induction nodes with
  | nil => rfl
  | cons child rest ih =>
      rw [flushableAll, ← each child List.mem_cons_self,
        ← ih fun other member => each other (List.mem_cons_of_mem _ member), writeNodes]
      cases writeNode host depth child with
      | error stop => rfl
      | ok front => cases writeNodes host depth rest <;> rfl

theorem writeNode_isOk (node : PropTree) :
    ∀ depth, (writeNode host depth node).isOk = flushable depth node := by
  induction node using byChildren with
  | step name prop children ih =>
      intro depth
      rw [writeNode, flushable, ← writeNodes_isOk host ih,
        ← formatXmlTag_isOk host (spacesAt depth)]
      by_cases fits : clampDepth depth * 2 < maxPropPath
      · rw [if_pos fits, decide_eq_true fits]
        cases formatXmlTag host (spacesAt depth) prop.value with
        | error stop => rfl
        | ok tag => cases writeNodes host (clampDepth depth + 1) children <;> rfl
      · rw [if_neg fits, decide_eq_false fits]
        rfl

/-- The whole text is written exactly if every node can be. -/
theorem flushText_isOk (channelName : CString) (properties : PropTree) :
    (flushText host channelName properties).isOk = flushableAll 1 properties.children := by
  rw [← writeNodes_isOk host fun child _ => writeNode_isOk host child, flushText]
  cases writeNodes host 1 properties.children <;> rfl

theorem flushText_of_flushable {properties : PropTree}
    (flushable : flushableAll 1 properties.children = true) (channelName : CString) :
    ∃ text, flushText host channelName properties = .ok text := by
  rw [← flushText_isOk host channelName] at flushable
  cases written : flushText host channelName properties with
  | error stop =>
      rw [written] at flushable
      cases flushable
  | ok text => exact ⟨text, rfl⟩

end Esconf
