import Esconf.SaveRuns

/-! What a flush leaves alone, what it leaves of the channels that it writes when it reports
no error, and what is on the disk when the process stops in it. -/

namespace Esconf

open NamedTree

variable {host : Host} {schedule : Schedule} {xbpx after : EsconfBackendPerchannelXml}

def NotWritten (xbpx : EsconfBackendPerchannelXml) (keys : List CString) (filename : CString) :
    Prop :=
  ∀ key ∈ keys, filename ≠ userFileName xbpx key ∧
    filename ≠ userFileName xbpx key ++ ".new".toList

theorem userFile_notWritten {keys : List CString} {key : CString} (other : key ∉ keys) :
    NotWritten xbpx keys (userFileName xbpx key) := by
  intro written member
  refine ⟨?_, userFileName_not_new⟩
  intro same
  rw [userFileName_injective same] at other
  exact other member

structure FlushFrame (keys : List CString) (before after : EsconfBackendPerchannelXml) : Prop where
  savePath : after.configSavePath = before.configSavePath
  registered : after.propChangedFunc = before.propChangedFunc
  entries : ∀ key, key ∉ keys → after.channels.lookup key = before.channels.lookup key
  files : ∀ filename, NotWritten before keys filename →
    after.disk filename = before.disk filename

theorem FlushFrame.userFileName {keys : List CString} (frame : FlushFrame keys xbpx after)
    (key : CString) : Esconf.userFileName after key = Esconf.userFileName xbpx key := by
  rw [Esconf.userFileName, Esconf.userFileName, frame.savePath]

theorem FlushFrame.refl (xbpx : EsconfBackendPerchannelXml) : FlushFrame [] xbpx xbpx :=
  ⟨rfl, rfl, fun _ _ => rfl, fun _ _ => rfl⟩

theorem FlushFrame.trans {key : CString} {keys : List CString}
    {middle : EsconfBackendPerchannelXml} (one : FlushFrame [key] xbpx middle)
    (two : FlushFrame keys middle after) : FlushFrame (key :: keys) xbpx after := by
  refine ⟨two.savePath.trans one.savePath, two.registered.trans one.registered, ?_, ?_⟩
  · intro other apart
    rw [List.mem_cons, not_or] at apart
    rw [two.entries other apart.2, one.entries other fun single =>
      apart.1 (List.mem_singleton.mp single)]
  · intro filename apart
    have first : NotWritten xbpx [key] filename := by
      intro other single
      rw [List.mem_singleton.mp single]
      exact apart key List.mem_cons_self
    have later : NotWritten middle keys filename := by
      intro other member
      rw [one.userFileName]
      exact apart other (List.mem_cons_of_mem _ member)
    rw [two.files filename later, one.files filename first]

theorem flushChannel_returned {key : CString} {device left : Device} {error : Option GError}
    (done : flushChannel host schedule xbpx key device = .returned error after left) :
    (xbpx.channels.lookup key = none ∧ after = xbpx) ∨
      ∃ channel properties disk, xbpx.channels.lookup key = some channel ∧
        after = { xbpx.store key { channel with properties, dirty := false } with disk } := by
  unfold flushChannel at done
  cases loaded : xbpx.channels.lookup key with
  | none =>
      rw [loaded] at done
      cases done
      exact Or.inl ⟨rfl, rfl⟩
  | some channel =>
      rw [loaded] at done
      dsimp only at done
      refine Or.inr ?_
      split at done
      · cases done
      · cases done
        exact ⟨channel, _, _, rfl, rfl⟩
      · split at done
        · split at done
          · cases done
          · cases done
            exact ⟨channel, _, _, rfl, rfl⟩
          · cases done
            exact ⟨channel, _, _, rfl, rfl⟩
        · cases done
          exact ⟨channel, _, _, rfl, rfl⟩

theorem flushChannel_frame {key : CString} {device left : Device} {error : Option GError}
    (done : flushChannel host schedule xbpx key device = .returned error after left) :
    FlushFrame [key] xbpx after := by
  rcases flushChannel_returned done with ⟨_, same⟩ | ⟨channel, properties, disk, loaded, result⟩
  · rw [same]
    exact ⟨rfl, rfl, fun _ _ => rfl, fun _ _ => rfl⟩
  · have files := flushChannel_files host schedule loaded device
    rw [done] at files
    refine ⟨by rw [result]; rfl, by rw [result]; rfl, ?_, ?_⟩
    · intro other apart
      rw [result]
      exact AList.lookup_insert_ne fun same => apart (List.mem_singleton.mpr same)
    · intro filename apart
      obtain ⟨unlike, unlike'⟩ := apart key (List.mem_singleton_self key)
      cases error with
      | some error => exact files filename unlike'
      | none =>
          obtain ⟨_, _, _, _, others⟩ := files
          exact others filename unlike unlike'

/-- A channel that is written without an error is written as it was, is in its file and is
not dirty any more. -/
def Published (host : Host) (before : EsconfBackendPerchannelXml) (key : CString)
    (after : EsconfBackendPerchannelXml) : Prop :=
  ∃ channel text, before.channels.lookup key = some channel ∧
    flushText host key channel.properties = .ok text ∧
    after.channels.lookup key =
      some { channel with properties := formattedTree channel.properties, dirty := false } ∧
    after.disk (userFileName before key) = some text

theorem flushChannel_published {key : CString} {device left : Device}
    (done : flushChannel host schedule xbpx key device = .returned none after left) :
    Published host xbpx key after := by
  cases loaded : xbpx.channels.lookup key with
  | none =>
      rw [flushChannel, loaded] at done
      cases done
  | some channel =>
      have meets := @writeFile_meets host schedule (userFileName xbpx key) key channel.properties
        ⟨xbpx.disk, device⟩
      unfold flushChannel at done
      rw [loaded] at done
      dsimp only at done
      cases written : writeFile host schedule (userFileName xbpx key) key channel.properties
          ⟨xbpx.disk, device⟩ with
      | stopped files =>
          rw [written] at done
          cases done
      | done value files =>
          rw [written] at done meets
          obtain ⟨formatted, text, whole, published, _⟩ := meets
          cases done
          refine ⟨channel, text, loaded, whole, ?_, published⟩
          change (xbpx.channels.insert key _).lookup key = _
          rw [AList.lookup_insert, formatted]
          rfl
      | failed value files =>
          rw [written] at done
          dsimp only at done
          split at done
          · split at done <;> cases done
          · cases done

theorem flushChannels_frame {keys : List CString} {device left : Device}
    {before error : Option GError}
    (done : flushChannels host schedule keys xbpx device before = .returned error after left) :
    FlushFrame keys xbpx after := by
  induction keys generalizing xbpx device before with
  | nil =>
      cases done
      exact .refl _
  | cons key rest ih =>
      rw [flushChannels] at done
      cases first : flushChannel host schedule xbpx key device with
      | stopped disk =>
          rw [first] at done
          cases done
      | returned failure middle left' =>
          rw [first] at done
          exact (flushChannel_frame first).trans (ih done)

theorem flushChannels_published {keys : List CString} (distinct : keys.Nodup)
    {device left : Device} {before : Option GError}
    (done : flushChannels host schedule keys xbpx device before = .returned none after left) :
    before = none ∧ ∀ key ∈ keys, Published host xbpx key after := by
  induction keys generalizing xbpx device before with
  | nil =>
      cases done
      exact ⟨rfl, nofun⟩
  | cons key rest ih =>
      obtain ⟨fresh, distinct⟩ := List.nodup_cons.mp distinct
      rw [flushChannels] at done
      cases first : flushChannel host schedule xbpx key device with
      | stopped disk =>
          rw [first] at done
          cases done
      | returned failure middle left' =>
          rw [first] at done
          have frame := flushChannel_frame first
          obtain ⟨clear, published⟩ := ih distinct done
          obtain ⟨start, ended⟩ := Option.or_eq_none_iff.mp clear
          rw [ended] at first
          refine ⟨start, List.forall_mem_cons.mpr ⟨?_, ?_⟩⟩
          · obtain ⟨channel, text, loaded, whole, entry, stored⟩ := flushChannel_published first
            have later := flushChannels_frame done
            refine ⟨channel, text, loaded, whole, (later.entries key fresh).trans entry, ?_⟩
            rw [← stored]
            apply later.files
            rw [← frame.userFileName]
            exact userFile_notWritten fresh
          · intro other member
            have apart : other ∉ [key] := by
              intro single
              rw [List.mem_singleton.mp single] at member
              exact fresh member
            obtain ⟨channel, text, loaded, whole, entry, stored⟩ := published other member
            rw [frame.entries other apart] at loaded
            rw [frame.userFileName] at stored
            exact ⟨channel, text, loaded, whole, entry, stored⟩

/-- Whatever fails, nothing that was to be written is to be written any more. -/
theorem flushChannels_unmarked {keys : List CString} {device left : Device}
    {before error : Option GError}
    (done : flushChannels host schedule keys xbpx device before = .returned error after left)
    {key : CString} {channel : EsconfChannel} (loaded : after.channels.lookup key = some channel)
    (dirty : channel.dirty = true) : key ∉ keys := by
  induction keys generalizing xbpx device before with
  | nil => exact List.not_mem_nil
  | cons other rest ih =>
      rw [flushChannels] at done
      cases first : flushChannel host schedule xbpx other device with
      | stopped disk =>
          rw [first] at done
          cases done
      | returned failure middle left' =>
          rw [first] at done
          have fresh := ih done
          intro member
          rcases List.mem_cons.mp member with rfl | member
          · have later := (flushChannels_frame done).entries key fresh
            rw [loaded] at later
            rcases flushChannel_returned first with ⟨missing, same⟩ | ⟨written, _, _, _, result⟩
            · rw [same, missing] at later
              cases later
            · rw [result] at later
              change some channel = (xbpx.channels.insert key _).lookup key at later
              rw [AList.lookup_insert] at later
              cases later
              cases dirty
          · exact fresh member

theorem perchannelXmlFlush_unmarked {device left : Device} {error : Option GError}
    (done : (perchannelXmlFlush host schedule xbpx device).2 = .returned error after left) :
    dirtyChannels after = [] := by
  apply List.eq_nil_iff_forall_not_mem.mpr
  intro key member
  obtain ⟨channel, loaded, dirty⟩ := mem_dirtyChannels.mp member
  have apart := flushChannels_unmarked done loaded dirty
  rw [(flushChannels_frame done).entries key apart] at loaded
  exact apart (mem_dirtyChannels.mpr ⟨channel, loaded, dirty⟩)

theorem flushChannels_stopped {keys : List CString} (distinct : keys.Nodup) {device : Device}
    {before : Option GError} {disk : Disk}
    (done : flushChannels host schedule keys xbpx device before = .stopped disk) :
    (∀ key, disk (userFileName xbpx key) = xbpx.disk (userFileName xbpx key) ∨
      key ∈ keys ∧ ∃ channel text, xbpx.channels.lookup key = some channel ∧
        flushText host key channel.properties = .ok text ∧
        disk (userFileName xbpx key) = some text) ∧
      ∀ filename, NotWritten xbpx keys filename → disk filename = xbpx.disk filename := by
  induction keys generalizing xbpx device before with
  | nil => cases done
  | cons key rest ih =>
      obtain ⟨fresh, distinct⟩ := List.nodup_cons.mp distinct
      rw [flushChannels] at done
      cases first : flushChannel host schedule xbpx key device with
      | stopped stop =>
          rw [first] at done
          cases done
          cases loaded : xbpx.channels.lookup key with
          | none =>
              rw [flushChannel, loaded] at first
              cases first
          | some channel =>
              have files := flushChannel_files host schedule loaded device
              rw [first] at files
              refine ⟨fun other => Or.inl (files _ userFileName_not_new), ?_⟩
              intro filename apart
              exact files filename (apart key List.mem_cons_self).2
      | returned failure middle left =>
          rw [first] at done
          have frame := flushChannel_frame first
          obtain ⟨texts, others⟩ := ih distinct done
          constructor
          · intro other
            by_cases same : other = key
            · subst same
              have kept : disk (userFileName xbpx other) = middle.disk (userFileName xbpx other) := by
                apply others
                rw [← frame.userFileName]
                exact userFile_notWritten fresh
              rw [kept]
              cases failure with
              | none =>
                  obtain ⟨channel, text, loaded, whole, _, stored⟩ := flushChannel_published first
                  exact Or.inr ⟨List.mem_cons_self, channel, text, loaded, whole, stored⟩
              | some failure =>
                  rcases flushChannel_returned first with ⟨_, same⟩ | ⟨channel, _, _, loaded, _⟩
                  · rw [same]
                    exact Or.inl rfl
                  · have files := flushChannel_files host schedule loaded device
                    rw [first] at files
                    exact Or.inl (files _ userFileName_not_new)
            · have apart : other ∉ [key] := fun single => same (List.mem_singleton.mp single)
              have file := frame.files _ (@userFile_notWritten xbpx _ _ apart)
              have written := texts other
              rw [frame.userFileName, frame.entries other apart, file] at written
              rcases written with kept | ⟨member, rewritten⟩
              · exact Or.inl kept
              · exact Or.inr ⟨List.mem_cons_of_mem _ member, rewritten⟩
          · intro filename apart
            have later : NotWritten middle rest filename := by
              intro other member
              rw [frame.userFileName]
              exact apart other (List.mem_cons_of_mem _ member)
            have here : NotWritten xbpx [key] filename := by
              intro other single
              rw [List.mem_singleton.mp single]
              exact apart key List.mem_cons_self
            rw [others filename later, frame.files filename here]

end Esconf
