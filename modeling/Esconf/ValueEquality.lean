import Esconf.Backend
import Esconf.Cache

/-! `_esconf_gvalue_is_equal`, and the two setters that skip a write of an equal value. -/

namespace Esconf

namespace GValue

def discrete : GValue → Bool
  | char _ | uchar _ | boolean _ | int _ | uint _ | int64 _ | uint64 _ => true
  | string _ | int16 _ | uint16 _ => true
  | _ => false

inductive Discrete : GValue → Prop where
  | scalar {value : GValue} (discrete : value.discrete = true) : Discrete value
  | array {elements : List GValue} (each : ∀ element ∈ elements, element.discrete = true) :
      Discrete (.ptrArray elements)

/-- The pairs that are compared rightly: a signed 16-bit value is compared with 0, which
`esconf_g_value_get_uint16` gives for it, and no array is equal to any value. -/
def ToldApart : GValue → GValue → Prop
  | int16 m, int16 n => m = 0 ∧ n = 0 ∨ m ≠ 0 ∧ m ≠ n
  | ptrArray l, ptrArray m => l ≠ m
  | _, _ => True

theorem isEqual_int16 (m n : Int16) : isEqual (int16 m) (int16 n) = true ↔ m = 0 := by
  have asked : isEqual (int16 m) (int16 n) = (m.toInt == 0) := rfl
  rw [asked, beq_iff_eq]
  constructor
  · intro zero
    exact Int16.toInt_inj.mp zero
  · intro zero
    rw [zero]
    rfl

theorem isEqual_ptrArray (l : List GValue) (value : GValue) :
    isEqual (ptrArray l) value = false := by
  unfold isEqual
  split
  · rfl
  · cases value <;> rfl

theorem isEqual_discrete {a b : GValue} (plain : a.discrete = true)
    (short : ∀ m n, ¬(a = int16 m ∧ b = int16 n)) : isEqual a b = true ↔ a = b := by
  constructor
  · intro equal
    have types := isEqual_gtype equal
    unfold isEqual at equal
    rw [if_neg (not_not.mpr types)] at equal
    cases a <;> first | cases plain; done | skip
    all_goals cases b <;> first | cases types; done | skip
    case int16.int16 m n => exact absurd ⟨rfl, rfl⟩ (short m n)
    all_goals exact congrArg _ (LawfulBEq.eq_of_beq equal)
  · rintro rfl
    unfold isEqual
    rw [if_neg (not_not.mpr rfl)]
    cases a <;> first | cases plain; done | skip
    case int16 m => exact absurd ⟨rfl, rfl⟩ (short m m)
    all_goals exact beq_self_eq_true _

/-- Discrete values are compared exactly if they are told apart. -/
theorem isEqual_iff {a b : GValue} (one : Discrete a) (two : Discrete b) :
    (isEqual a b = true ↔ a = b) ↔ ToldApart a b := by
  cases one with
  | array _ =>
      rw [isEqual_ptrArray]
      cases two with
      | array _ => simp [ToldApart]
      | scalar plain =>
          cases b <;> first | cases plain; done | simp [ToldApart]
  | scalar plain =>
      by_cases short : ∃ m n, a = int16 m ∧ b = int16 n
      · obtain ⟨m, n, rfl, rfl⟩ := short
        rw [isEqual_int16]
        simp only [ToldApart, int16.injEq]
        constructor
        · intro same
          by_cases zero : m = 0
          · exact Or.inl ⟨zero, by rw [← same.mp zero, zero]⟩
          · exact Or.inr ⟨zero, fun equal => zero (same.mpr equal)⟩
        · rintro (⟨rfl, rfl⟩ | ⟨nonzero, apart⟩)
          · exact ⟨fun _ => rfl, fun _ => rfl⟩
          · exact ⟨fun zero => absurd zero nonzero, fun equal => absurd equal apart⟩
      · have other : ∀ m n, ¬(a = int16 m ∧ b = int16 n) := fun m n both => short ⟨m, n, both⟩
        have told : ToldApart a b := by
          cases a <;> first | trivial | skip
          case int16 m =>
            cases b <;> first | trivial | skip
            case int16 n => exact absurd ⟨rfl, rfl⟩ (other m n)
        exact iff_of_true (isEqual_discrete plain other) told

end GValue

section Skipping

variable {host : Host} {stored value : GValue}

theorem callSetProperty_calls {cache fetched : EsconfCache} {property : CString}
    {item : Option GValue} {number : Nat} {oldItem : EsconfCacheOldItem} :
    callSetProperty host cache property value item number oldItem ≠
      ⟨true, none, fetched, none, none⟩ := by
  unfold callSetProperty
  intro skipped
  cases converted : esconfGvalueToGvariant host value with
  | none =>
      rw [converted] at skipped
      cases congrArg SetReturn.ret skipped
  | some val =>
      rw [converted] at skipped
      cases congrArg SetReturn.call skipped

/-- `esconf_cache_set` returns TRUE at once, with no call and no signal, exactly if the
value it has or has fetched compares as equal. -/
theorem esconfCacheSet_skips {cache : EsconfCache} {property : CString}
    {reply : Except DBusError GVariant}
    (looked : (esconfCacheLookupLocked cache property reply).1 = some stored) :
    esconfCacheSet host cache property value reply =
        some ⟨true, none, (esconfCacheLookupLocked cache property reply).2.2, none, none⟩ ↔
      stored.isEqual value = true := by
  rw [esconfCacheSet]
  generalize esconfCacheLookupLocked cache property reply = lookup at looked
  obtain ⟨item, error, fetched⟩ := lookup
  obtain rfl : item = some stored := looked
  change setLookedUp host fetched property value (some stored) = _ ↔ _
  cases equal : stored.isEqual value with
  | true =>
      rw [setLookedUp_equal (by simpa using equal)]
      simp
  | false =>
      rw [setLookedUp, if_neg (by simp [equal])]
      constructor
      · intro skipped
        split at skipped
        · split at skipped
          · cases skipped
          · exact absurd (Option.some.inj skipped) callSetProperty_calls
        · exact absurd (Option.some.inj skipped) callSetProperty_calls
      · intro same
        cases same

/-- `esconf_backend_perchannel_xml_set` leaves the backend as it is, with no notice and no
save, exactly if the value that is there compares as equal. -/
theorem perchannelXmlSet_skips {xbpx found : EsconfBackendPerchannelXml}
    {channelName key property : CString} {channel : EsconfChannel} {prop : EsconfProperty}
    (looked : findChannel host xbpx channelName = some (.ok (key, channel), found))
    (here : proptreeLookup channel.properties property = some prop) (open' : prop.locked = false)
    (has : prop.effective = stored) (heard : found.propChangedFunc = true) :
    perchannelXmlSet host xbpx channelName property value = some (.ok (), found) ↔
      stored.isEqual value = true := by
  rw [perchannelXmlSet, looked]
  dsimp only
  rw [setIn, here]
  dsimp only
  rw [if_neg (by simp [open']), has]
  cases equal : stored.isEqual value with
  | true => simp
  | false =>
      rw [if_neg Bool.false_ne_true]
      constructor
      · intro skipped
        have same : ((found.propChanged channelName property).scheduleSave key _) = found :=
          congrArg Prod.snd (Option.some.inj skipped)
        have notices : found.notices ++ [(channelName, property)] = found.notices := by
          rw [EsconfBackendPerchannelXml.propChanged, if_pos heard] at same
          exact congrArg EsconfBackendPerchannelXml.notices same
        simp at notices
      · intro same
        cases same

end Skipping

/-- The comparison is exact on a stored value and a new one, and both setters skip the
write of the new one exactly if it would change nothing. -/
structure WritesExactly (host : Host) (stored value : GValue) : Prop where
  compared : stored.isEqual value = true ↔ stored = value
  cached : ∀ (cache : EsconfCache) (property : CString) (reply : Except DBusError GVariant),
    (esconfCacheLookupLocked cache property reply).1 = some stored →
    (esconfCacheSet host cache property value reply =
        some ⟨true, none, (esconfCacheLookupLocked cache property reply).2.2, none, none⟩ ↔
      stored = value)
  kept : ∀ (xbpx found : EsconfBackendPerchannelXml) (channelName key property : CString)
    (channel : EsconfChannel) (prop : EsconfProperty),
    findChannel host xbpx channelName = some (.ok (key, channel), found) →
    proptreeLookup channel.properties property = some prop → prop.locked = false →
    prop.effective = stored → found.propChangedFunc = true →
    (perchannelXmlSet host xbpx channelName property value = some (.ok (), found) ↔
      stored = value)

/-- Values are compared and written exactly, but for two signed 16-bit values that are
not both 0 and not told apart by a first one other than 0, and for equal arrays. -/
theorem writes_exactly_iff (host : Host) (stored value : GValue) (one : stored.Discrete)
    (two : value.Discrete) : WritesExactly host stored value ↔ stored.ToldApart value := by
  rw [← GValue.isEqual_iff one two]
  constructor
  · intro right
    exact right.compared
  · intro compared
    refine ⟨compared, ?_, ?_⟩
    · intro cache property reply looked
      exact (esconfCacheSet_skips looked).trans compared
    · intro xbpx found channelName key property channel prop looked here open' has heard
      exact (perchannelXmlSet_skips looked here open' has heard).trans compared

/-- A string is written over another one, and a list of numbers is not taken for a number. -/
theorem writes_exactly_strings :
    WritesExactly (.bare []) (.string (some "a".toList)) (.string (some "b".toList)) ∧
      WritesExactly (.bare []) (.ptrArray [.int 1]) (.int 1) := by
  constructor
  · exact (writes_exactly_iff (.bare []) _ _ (.scalar rfl) (.scalar rfl)).mpr trivial
  · have numbers : GValue.Discrete (.ptrArray [.int 1]) := by
      apply GValue.Discrete.array
      intro element member
      rw [List.mem_singleton.mp member]
      rfl
    exact (writes_exactly_iff (.bare []) _ _ numbers (.scalar rfl)).mpr trivial

/-- Setting a cached 16-bit value 0 to 7 is skipped, and 7 to 7 is not. -/
theorem short_write_dropped :
    GValue.Discrete (.int16 0) ∧ GValue.Discrete (.int16 7) ∧
      ¬WritesExactly (.bare []) (.int16 0) (.int16 7) ∧
      ¬WritesExactly (.bare []) (.int16 7) (.int16 7) := by
  refine ⟨.scalar rfl, .scalar rfl, ?_, ?_⟩
  · intro right
    have dropped := right.compared.mp rfl
    cases dropped
  · intro right
    have kept := right.compared.mpr rfl
    cases kept

end Esconf
