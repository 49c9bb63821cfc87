import Esconf.XmlTags
import Esconf.XmlWriter

/-! The tags around the values of a written channel, and their text. -/

namespace Esconf

open NamedTree

variable (host : Host)

def nameAttribute (name : CString) : TagAttribute := ⟨"name".toList, name, true⟩

def closingTags (depth : Nat) : List Tag :=
  [.layout (spacesAt depth), .finish "property".toList, newline]

theorem typeValue_nested (type value : CString) :
    typeValue type value =
      (" ".toList ++ ("type".toList ++ ("=\"".toList ++ (type ++ "\"".toList)))) ++
        (" ".toList ++ ("value".toList ++ ("=\"".toList ++ (value ++ "\"".toList)))) := by
  unfold typeValue
  simp only [List.append_assoc]
  have first : " type=\"".toList = " ".toList ++ ("type".toList ++ "=\"".toList) := rfl
  have second : "\" value=\"".toList =
      "\"".toList ++ (" ".toList ++ ("value".toList ++ "=\"".toList)) := rfl
  rw [first, second]
  simp only [List.append_assoc]

theorem typeValue_plain (type value : CString) :
    typeValue type value =
      [plainAttribute "type" type, plainAttribute "value" value].flatMap
        (TagAttribute.text host) := by
  rw [typeValue_nested, List.flatMap_cons, List.flatMap_cons, List.flatMap_nil, List.append_nil,
    plainAttribute_text, plainAttribute_text]

theorem typeValue_escaped (type value : CString) :
    typeValue type (host.markupEscape value) =
      [plainAttribute "type" type, ⟨"value".toList, value, true⟩].flatMap
        (TagAttribute.text host) := by
  rw [typeValue_nested, List.flatMap_cons, List.flatMap_cons, List.flatMap_nil, List.append_nil,
    plainAttribute_text, escapedAttribute_text]

theorem nameAttribute_text (name rest : CString) :
    "<property name=\"".toList ++ (host.markupEscape name ++ ("\"".toList ++ rest)) =
      "<".toList ++ ("property".toList ++ ((nameAttribute name).text host ++ rest)) := by
  have opening : "<property name=\"".toList =
      "<".toList ++ ("property".toList ++ (" ".toList ++ ("name".toList ++ "=\"".toList))) := rfl
  rw [opening, nameAttribute, escapedAttribute_text]
  simp only [List.append_assoc]

theorem closingTags_text (depth : Nat) :
    tagsText host (closingTags depth) = spacesAt depth ++ "</property>\n".toList := by
  have closing : "</property>\n".toList =
      "</".toList ++ ("property".toList ++ (">".toList ++ "\n".toList)) := rfl
  rw [closingTags, tagsText_cons, tagsText_cons, tagsText_cons, tagsText_nil, layout_text,
    finish_text, newline_text, closing]
  simp only [List.append_assoc, List.append_nil]

theorem leafTags_text (depth : Nat) (name : CString) (attributes : List TagAttribute) :
    tagsText host [.layout (spacesAt depth),
        .empty "property".toList (nameAttribute name :: attributes), newline] =
      spacesAt depth ++ ("<property name=\"".toList ++ (host.markupEscape name ++ ("\"".toList ++
        (attributes.flatMap (TagAttribute.text host) ++ "/>\n".toList)))) := by
  have last : "/>\n".toList = "/>".toList ++ "\n".toList := rfl
  rw [nameAttribute_text, last]
  simp only [tagsText_cons, tagsText_nil, layout_text, newline_text, empty_text,
    List.flatMap_cons, List.append_assoc, List.append_nil]

theorem branchTags_text (depth : Nat) (name : CString) (attributes : List TagAttribute)
    (below : List Tag) :
    tagsText host (.layout (spacesAt depth) ::
        .start "property".toList (nameAttribute name :: attributes) :: newline ::
          below ++ closingTags depth) =
      spacesAt depth ++ ("<property name=\"".toList ++ (host.markupEscape name ++ ("\"".toList ++
        (attributes.flatMap (TagAttribute.text host) ++ (">\n".toList ++ (tagsText host below ++
          (spacesAt depth ++ "</property>\n".toList))))))) := by
  have last : ">\n".toList = ">".toList ++ "\n".toList := rfl
  rw [nameAttribute_text, last]
  simp only [List.cons_append, tagsText_cons, tagsText_append, layout_text, newline_text,
    start_text, closingTags_text, List.flatMap_cons, List.append_assoc]

theorem flushText_framed {channelName body : CString} {tree : PropTree} {nodes : List Tag}
    (written : writeNodes host 1 tree.children = .ok body) (same : body = tagsText host nodes) :
    flushText host channelName tree = .ok (tagsText host
      (.declaration :: .layout "\n\n".toList :: .start "channel".toList
        [plainAttribute "name" channelName, plainAttribute "version" "1.0".toList] :: newline ::
          nodes ++ [.finish "channel".toList, newline])) := by
  have declaration : "<?xml version=\"1.0\" encoding=\"UTF-8\"?>\n\n".toList =
      Tag.declaration.text host ++ "\n\n".toList := rfl
  have opening : "<channel name=\"".toList =
      "<".toList ++ ("channel".toList ++ (" ".toList ++ ("name".toList ++ "=\"".toList))) := rfl
  have version : "\" version=\"1.0\">\n".toList =
      "\"".toList ++ (" ".toList ++ ("version".toList ++ ("=\"".toList ++ ("1.0".toList ++
        ("\"".toList ++ (">".toList ++ "\n".toList)))))) := rfl
  have closing : "</channel>\n".toList =
      "</".toList ++ ("channel".toList ++ (">".toList ++ "\n".toList)) := rfl
  rw [flushText, written, same, declaration, opening, version, closing]
  simp only [Except.map, List.cons_append, tagsText_cons, tagsText_append, tagsText_nil,
    layout_text, newline_text, start_text, finish_text, List.flatMap_cons, List.flatMap_nil,
    plainAttribute_text, List.append_assoc, List.append_nil]

theorem balanced_property (depth : Nat) (attributes : List TagAttribute) {inner : List Tag}
    (balanced : Balanced inner) :
    Balanced (.layout (spacesAt depth) :: .start "property".toList attributes :: newline ::
      inner ++ closingTags depth) := by
  intro stack
  change nesting ("property".toList :: stack) (inner ++ closingTags depth) = some stack
  rw [nesting_append _ (balanced _), closingTags, nesting, nesting, if_pos rfl]
  rfl

end Esconf
