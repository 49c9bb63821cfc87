import Esconf.Host
import Esconf.CNumber

/-! The tags of an XML text: how they are written, and what a parser hands on for
them. -/

namespace Esconf

variable (host : Host)

structure TagAttribute where
  name : CString
  value : CString
  escaped : Bool

/-- The XML declaration, white space, a start tag, an end tag, or an element
without content. -/
inductive Tag where
  | declaration
  | layout (text : CString)
  | start (name : CString) (attributes : List TagAttribute)
  | finish (name : CString)
  | empty (name : CString) (attributes : List TagAttribute)

def TagAttribute.text (pair : TagAttribute) : CString :=
  " ".toList ++ pair.name ++ "=\"".toList ++
    (if pair.escaped then host.markupEscape pair.value else pair.value) ++ "\"".toList

def Tag.text : Tag → CString
  | declaration => "<?xml version=\"1.0\" encoding=\"UTF-8\"?>".toList
  | layout text => text
  | start name attributes => "<".toList ++ name ++ attributes.flatMap (·.text host) ++ ">".toList
  | finish name => "</".toList ++ name ++ ">".toList
  | empty name attributes => "<".toList ++ name ++ attributes.flatMap (·.text host) ++ "/>".toList

def tagsText (tags : List Tag) : CString := tags.flatMap (Tag.text host)

/-- No start tag lacks its end tag and no end tag its start tag; the stack holds
the names of the open elements. -/
def nesting : List CString → List Tag → Option (List CString)
  | stack, [] => some stack
  | stack, .declaration :: rest => nesting stack rest
  | stack, .layout _ :: rest => nesting stack rest
  | stack, .empty _ _ :: rest => nesting stack rest
  | stack, .start name _ :: rest => nesting (name :: stack) rest
  | [], .finish _ :: _ => none
  | top :: stack, .finish name :: rest => if top = name then nesting stack rest else none

/-- A string that attribute reading leaves as it is. -/
def CleanText (text : CString) : Prop := ∀ c ∈ text, c ≠ '\t' ∧ c ≠ '\n' ∧ c ≠ '\r'

/-- A string that needs no escaping. -/
def PlainText (text : CString) : Prop := ∀ c ∈ text, c ≠ '<' ∧ c ≠ '&' ∧ c ≠ '"'

instance (text : CString) : Decidable (CleanText text) :=
  List.decidableBAll (fun c => c ≠ '\t' ∧ c ≠ '\n' ∧ c ≠ '\r') text

instance (text : CString) : Decidable (PlainText text) :=
  List.decidableBAll (fun c => c ≠ '<' ∧ c ≠ '&' ∧ c ≠ '"') text

def plainAttribute (name : String) (value : CString) : TagAttribute := ⟨name.toList, value, false⟩

def newline : Tag := .layout "\n".toList

theorem plainAttribute_text (name : String) (value : CString) :
    (plainAttribute name value).text host =
      " ".toList ++ (name.toList ++ ("=\"".toList ++ (value ++ "\"".toList))) := by
  unfold TagAttribute.text plainAttribute
  rw [if_neg Bool.false_ne_true]
  simp only [List.append_assoc]

theorem escapedAttribute_text (name : String) (value : CString) :
    TagAttribute.text host ⟨name.toList, value, true⟩ =
      " ".toList ++ (name.toList ++ ("=\"".toList ++ (host.markupEscape value ++ "\"".toList))) := by
  unfold TagAttribute.text
  rw [if_pos rfl]
  simp only [List.append_assoc]

@[simp] theorem tagsText_nil : tagsText host [] = [] := rfl

@[simp] theorem tagsText_cons (tag : Tag) (tags : List Tag) :
    tagsText host (tag :: tags) = tag.text host ++ tagsText host tags := rfl

@[simp] theorem tagsText_append (front back : List Tag) :
    tagsText host (front ++ back) = tagsText host front ++ tagsText host back :=
  List.flatMap_append

@[simp] theorem layout_text (text : CString) : (Tag.layout text).text host = text := rfl

theorem start_text (name : CString) (attributes : List TagAttribute) :
    (Tag.start name attributes).text host =
      "<".toList ++ name ++ attributes.flatMap (·.text host) ++ ">".toList := rfl

theorem finish_text (name : CString) :
    (Tag.finish name).text host = "</".toList ++ name ++ ">".toList := rfl

theorem empty_text (name : CString) (attributes : List TagAttribute) :
    (Tag.empty name attributes).text host =
      "<".toList ++ name ++ attributes.flatMap (·.text host) ++ "/>".toList := rfl

@[simp] theorem newline_text : newline.text host = "\n".toList := rfl

def Balanced (tags : List Tag) : Prop := ∀ stack, nesting stack tags = some stack

theorem nesting_append {tags : List Tag} (back : List Tag) {stack middle : List CString}
    (front : nesting stack tags = some middle) :
    nesting stack (tags ++ back) = nesting middle back := by
  induction tags generalizing stack with
  | nil =>
      cases front
      rfl
  | cons tag rest ih =>
      cases tag with
      | finish name =>
          cases stack with
          | nil => cases front
          | cons top stack =>
              rw [nesting] at front
              split at front
              · next same =>
                  rw [List.cons_append, nesting, if_pos same]
                  exact ih front
              · cases front
      | _ => exact ih front

theorem Balanced.append {front back : List Tag} (first : Balanced front) (second : Balanced back) :
    Balanced (front ++ back) := by
  intro stack
  rw [nesting_append back (first stack), second stack]

theorem printNat_plain (n : Nat) : CleanText (printNat n) ∧ PlainText (printNat n) := by
  have digits := printNat_digits n
  refine ⟨fun c member => ?_, fun c member => ?_⟩
  all_goals
    have digit := digits c member
    refine ⟨?_, ?_, ?_⟩ <;> rintro rfl <;> revert digit <;> decide

theorem printInt_plain (n : Int) : CleanText (printInt n) ∧ PlainText (printInt n) := by
  obtain ⟨clean, plain⟩ := printNat_plain n.natAbs
  unfold printInt
  split
  · exact ⟨List.forall_mem_cons.mpr ⟨by decide, clean⟩, List.forall_mem_cons.mpr ⟨by decide, plain⟩⟩
  · exact ⟨clean, plain⟩

end Esconf
