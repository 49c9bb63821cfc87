import Esconf.XmlWriter
import Esconf.Backend
import Esconf.Library.Attempts

/-! `esconf_backend_perchannel_xml_flush_channel` with its file operations, each of
which may fail, or be the last thing the process does. -/

namespace Esconf

open NamedTree

/-- How a file operation ends. When it fails, or the process stops in it, anything
may be left in the file that is being written. -/
inductive Outcome where
  | done
  | failed (left : Option CString) (message : CString)
  | stopped (left : Option CString)

/-- The outcome of every file operation, in the order they are made. -/
abbrev Schedule := Nat → Outcome

/-- The number of file operations made so far, and `strerror (errno)`. -/
structure Device where
  operations : Nat
  errno : CString

structure Files where
  disk : Disk
  device : Device

def Disk.put (disk : Disk) (filename : CString) (contents : Option CString) : Disk :=
  fun name => if name = filename then contents else disk name

def fileOperation (schedule : Schedule) (filename : CString) (effect : Disk → Disk)
    (files : Files) : Attempt Files Unit :=
  let operations := files.device.operations + 1
  match schedule files.device.operations with
  | .done => .done () ⟨effect files.disk, { files.device with operations }⟩
  | .failed left message => .failed () ⟨files.disk.put filename left, ⟨operations, message⟩⟩
  | .stopped left => .stopped ⟨files.disk.put filename left, { files.device with operations }⟩

/-- `fopen (filename, "w")`. -/
def fopenWrite (schedule : Schedule) (filename : CString) : Files → Attempt Files Unit :=
  fileOperation schedule filename fun disk => disk.put filename (some [])

/-- `fputs` and `fprintf`. -/
def fputs (schedule : Schedule) (filename text : CString) : Files → Attempt Files Unit :=
  fileOperation schedule filename fun disk =>
    disk.put filename (some ((disk filename).getD [] ++ text))

/-- `fflush`, `fdatasync` and `fclose`. -/
def settle (schedule : Schedule) (filename : CString) : Files → Attempt Files Unit :=
  fileOperation schedule filename id

def renameFile (schedule : Schedule) (old new : CString) : Files → Attempt Files Unit :=
  fileOperation schedule old fun disk => (disk.put new (disk old)).put old none

/-- What `esconf_format_xml_tag` leaves of a value: one of a type it does not know
is unset. -/
def formattedValue : GValue → GValue
  | .uint16 _ => .invalid
  | .int16 _ => .invalid
  | .other _ _ => .invalid
  | value => value

def formattedProperty (prop : EsconfProperty) : EsconfProperty :=
  prop.withValue (formattedValue prop.value)

section Writing

variable (host : Host) (schedule : Schedule) (filename : CString)

mutual

/-- `esconf_backend_perchannel_xml_write_node`; the node is returned as it is then. -/
def writeNodeTo (depth : Nat) : PropTree → Files → Attempt Files PropTree
  | .node name prop children, files =>
    if clampDepth depth * 2 < maxPropPath then
      match formatXmlTag host (spacesAt depth) prop.value with
      | .error .fault => .stopped files
      | .error .refused => .failed (.node name prop children) files
      | .ok (text, isArray) =>
        -- A value of an unknown type is unset in memory too.
        let prop := formattedProperty prop
        let opening := spacesAt depth ++ "<property name=\"".toList ++ host.markupEscape name ++
          "\"".toList ++ text ++
            (if isArray then [] else if children.isEmpty then "/>\n".toList else ">\n".toList)
        (fputs schedule filename opening files).andThen (fun _ => .node name prop children)
          fun _ files =>
        (writeNodesTo (clampDepth depth + 1) children files).andThen (.node name prop)
          fun children files =>
        if isArray || !children.isEmpty then
          (fputs schedule filename (spacesAt depth) files).andThen
            (fun _ => .node name prop children) fun _ files =>
          (fputs schedule filename "</property>\n".toList files).andThen
            (fun _ => .node name prop children) fun _ files =>
          .done (.node name prop children) files
        else .done (.node name prop children) files
    else .stopped files

def writeNodesTo (depth : Nat) : List PropTree → Files → Attempt Files (List PropTree)
  | [], files => .done [] files
  | child :: rest, files =>
    (writeNodeTo depth child files).andThen (· :: rest) fun child files =>
    (writeNodesTo depth rest files).andThen (child :: ·) fun rest files =>
    .done (child :: rest) files

end

def withChildren (properties : PropTree) (children : List PropTree) : PropTree :=
  .node properties.key properties.data children

def writeChannel (channelName : CString) (properties : PropTree) (files : Files) :
    Attempt Files PropTree :=
  (fputs schedule filename "<?xml version=\"1.0\" encoding=\"UTF-8\"?>\n\n".toList files).andThen
    (fun _ => properties) fun _ files =>
  (fputs schedule filename ("<channel name=\"".toList ++ channelName ++
      "\" version=\"1.0\">\n".toList) files).andThen (fun _ => properties) fun _ files =>
  (writeNodesTo host schedule filename 1 properties.children files).andThen
    (withChildren properties) fun children files =>
  (fputs schedule filename "</channel>\n".toList files).andThen
    (fun _ => withChildren properties children) fun _ files =>
  (settle schedule filename files).andThen (fun _ => withChildren properties children)
    fun _ files =>
  (settle schedule filename files).andThen (fun _ => withChildren properties children)
    fun _ files =>
  .done (withChildren properties children) files

/-- What is done to the files before `out`; besides the properties, whether the file
is still open then. -/
def writeFile (channelName : CString) (properties : PropTree) (files : Files) :
    Attempt Files (PropTree × Bool) :=
  let new := filename ++ ".new".toList
  (fopenWrite schedule new files).andThen (fun _ => (properties, false)) fun _ files =>
  (writeChannel host schedule new channelName properties files).andThen (fun left => (left, true))
    fun properties files =>
  (settle schedule new files).andThen (fun _ => (properties, false)) fun _ files =>
  (renameFile schedule new filename files).andThen (fun _ => (properties, false)) fun _ files =>
  .done (properties, false) files

end Writing

/-- The outcome of flushing: TRUE or FALSE with an error and what is left, or the
files the process leaves behind if it stops. -/
inductive Flushed where
  | returned (error : Option GError) (xbpx : EsconfBackendPerchannelXml) (device : Device)
  | stopped (disk : Disk)

def writeFailure (channelName message : CString) : GError :=
  ⟨.esconf .writeFailure, "Unable to write channel \"".toList ++ channelName ++ "\": ".toList ++
    message⟩

section Flushing

variable (host : Host) (schedule : Schedule)

/-- `esconf_backend_perchannel_xml_flush_channel`. -/
def flushChannel (xbpx : EsconfBackendPerchannelXml) (channelName : CString) (device : Device) :
    Flushed :=
  match xbpx.channels.lookup channelName with
  | none => .returned (some (channelNotFound channelName)) xbpx device
  | some channel =>
    let filename := userFileName xbpx channelName
    -- The channel is not dirty any more, whether or not writing it succeeds.
    let clean := fun (properties : PropTree) (disk : Disk) =>
      { xbpx.store channelName { channel with properties, dirty := false } with disk }
    match writeFile host schedule filename channelName channel.properties ⟨xbpx.disk, device⟩ with
    | .stopped files => .stopped files.disk
    | .done (properties, _) files => .returned none (clean properties files.disk) files.device
    | .failed (properties, isOpen) files =>
      let error := writeFailure channelName files.device.errno
      if isOpen then
        match settle schedule (filename ++ ".new".toList) files with
        | .stopped files => .stopped files.disk
        | .failed _ files => .returned (some error) (clean properties files.disk) files.device
        | .done _ files => .returned (some error) (clean properties files.disk) files.device
      else .returned (some error) (clean properties files.disk) files.device

end Flushing

def Elsewhere (filename : CString) (before after : Disk) : Prop :=
  ∀ name, name ≠ filename → after name = before name

theorem Disk.put_self (disk : Disk) (filename : CString) (contents : Option CString) :
    disk.put filename contents filename = contents := if_pos rfl

theorem Disk.put_other (disk : Disk) {filename name : CString} (contents : Option CString)
    (apart : name ≠ filename) : disk.put filename contents name = disk name := if_neg apart

theorem Disk.put_elsewhere (disk : Disk) (filename : CString) (contents : Option CString) :
    Elsewhere filename disk (disk.put filename contents) := fun _ apart => if_neg apart

theorem Elsewhere.trans {filename : CString} {first second third : Disk}
    (one : Elsewhere filename first second) (two : Elsewhere filename second third) :
    Elsewhere filename first third :=
  fun name apart => (two name apart).trans (one name apart)

section Staging

variable {host : Host} {schedule : Schedule} {filename : CString} {start : Disk}

structure Staged (filename : CString) (start : Disk) (written : CString) (files : Files) :
    Prop where
  kept : Elsewhere filename start files.disk
  holding : files.disk filename = some written

theorem fileOperation_meets {effect : Disk → Disk} {files : Files} {after : Unit → Files → Prop}
    (kept : Elsewhere filename start files.disk)
    (done : ∀ device, after () ⟨effect files.disk, device⟩) :
    (fileOperation schedule filename effect files).Meets
      (fun broken => Elsewhere filename start broken.disk) after := by
  unfold fileOperation
  cases schedule files.device.operations with
  | done => exact done _
  | failed left message => exact kept.trans (Disk.put_elsewhere _ _ _)
  | stopped left => exact kept.trans (Disk.put_elsewhere _ _ _)

theorem fopenWrite_meets {files : Files} (kept : Elsewhere filename start files.disk) :
    (fopenWrite schedule filename files).Meets
      (fun broken => Elsewhere filename start broken.disk)
      fun _ => Staged filename start [] := by
  apply fileOperation_meets kept
  intro device
  exact ⟨kept.trans (Disk.put_elsewhere _ _ _), Disk.put_self _ _ _⟩

theorem fputs_meets {files : Files} {written : CString} (text : CString)
    (staged : Staged filename start written files) :
    (fputs schedule filename text files).Meets
      (fun broken => Elsewhere filename start broken.disk)
      fun _ => Staged filename start (written ++ text) := by
  apply fileOperation_meets staged.kept
  intro device
  refine ⟨staged.kept.trans (Disk.put_elsewhere _ _ _), ?_⟩
  dsimp only
  rw [Disk.put_self, staged.holding]
  rfl

theorem settle_meets {files : Files} {written : CString}
    (staged : Staged filename start written files) :
    (settle schedule filename files).Meets
      (fun broken => Elsewhere filename start broken.disk)
      fun _ => Staged filename start written := by
  apply fileOperation_meets staged.kept
  intro device
  exact ⟨staged.kept, staged.holding⟩

/-- What writing a part of the tree comes to: the part as it is formatted, and its
text behind what was written before. -/
def Wrote {α : Type} (filename : CString) (start : Disk) (written : CString) (formatted : α)
    (text : Except WriteStop CString) (value : α) (after : Files) : Prop :=
  value = formatted ∧ ∃ added, text = .ok added ∧ Staged filename start (written ++ added) after

theorem writeNodesTo_meets {depth : Nat} {nodes : List PropTree}
    (each : ∀ child ∈ nodes, ∀ depth files written, Staged filename start written files →
      (writeNodeTo host schedule filename depth child files).Meets
        (fun broken => Elsewhere filename start broken.disk)
        (Wrote filename start written (mapData formattedProperty child)
          (writeNode host depth child)))
    {files : Files} {written : CString} (staged : Staged filename start written files) :
    (writeNodesTo host schedule filename depth nodes files).Meets
      (fun broken => Elsewhere filename start broken.disk)
      (Wrote filename start written (mapDataAll formattedProperty nodes)
        (writeNodes host depth nodes)) := by
  induction nodes generalizing files written with
  | nil =>
      refine ⟨rfl, [], rfl, ?_⟩
      rw [List.append_nil]
      exact staged
  | cons child rest ih =>
      rw [writeNodesTo]
      apply (each child List.mem_cons_self depth files written staged).andThen
      intro child' middle wrote
      obtain ⟨same, first, text, staged'⟩ := wrote
      apply (ih (fun other member => each other (List.mem_cons_of_mem _ member)) staged').andThen
      intro rest' after wrote'
      obtain ⟨same', second, text', staged''⟩ := wrote'
      refine ⟨?_, first ++ second, ?_, ?_⟩
      · rw [same, same', mapDataAll]
      · rw [writeNodes, text, text']
        rfl
      · rw [← List.append_assoc]
        exact staged''

theorem writeNodeTo_meets (node : PropTree) :
    ∀ depth files written, Staged filename start written files →
      (writeNodeTo host schedule filename depth node files).Meets
        (fun broken => Elsewhere filename start broken.disk)
        (Wrote filename start written (mapData formattedProperty node)
          (writeNode host depth node)) := by
  induction node using byChildren with
  | step name prop children ih =>
      intro depth files written staged
      rw [writeNodeTo, writeNode]
      by_cases fits : clampDepth depth * 2 < maxPropPath
      · rw [if_pos fits, if_pos fits]
        cases tag : formatXmlTag host (spacesAt depth) prop.value with
        | error stop => cases stop <;> exact staged.kept
        | ok pair =>
            obtain ⟨text, isArray⟩ := pair
            dsimp only
            apply (fputs_meets _ staged).andThen
            intro _ opened staged₁
            apply (writeNodesTo_meets ih staged₁).andThen
            intro children' below wrote
            obtain ⟨same, texts, found, staged₂⟩ := wrote
            have empty : children'.isEmpty = children.isEmpty := by
              rw [same]
              cases children <;> rfl
            rw [found, empty]
            split
            · next closes =>
                apply (fputs_meets _ staged₂).andThen
                intro _ spaced staged₃
                apply (fputs_meets _ staged₃).andThen
                intro _ closed staged₄
                refine ⟨by rw [same, mapData], _, rfl, ?_⟩
                dsimp only
                rw [if_pos closes]
                simpa only [List.append_assoc] using staged₄
            · next closes =>
                refine ⟨by rw [same, mapData], _, rfl, ?_⟩
                dsimp only
                rw [if_neg closes, List.append_nil]
                simpa only [List.append_assoc] using staged₂
      · rw [if_neg fits]
        exact staged.kept

theorem writeChannel_meets (channelName : CString) (properties : PropTree) {files : Files}
    (staged : Staged filename start [] files) :
    (writeChannel host schedule filename channelName properties files).Meets
      (fun broken => Elsewhere filename start broken.disk)
      (Wrote filename start []
        (withChildren properties (mapDataAll formattedProperty properties.children))
        (flushText host channelName properties)) := by
  apply (fputs_meets _ staged).andThen
  intro _ _ header
  apply (fputs_meets _ header).andThen
  intro _ _ channel
  apply (writeNodesTo_meets (fun child _ => writeNodeTo_meets child) channel).andThen
  intro children _ wrote
  obtain ⟨same, texts, found, nodes⟩ := wrote
  apply (fputs_meets _ nodes).andThen
  intro _ _ closing
  apply (settle_meets closing).andThen
  intro _ _ flushed
  apply (settle_meets flushed).andThen
  intro _ _ synced
  refine ⟨by rw [same], "<?xml version=\"1.0\" encoding=\"UTF-8\"?>\n\n".toList ++
    ("<channel name=\"".toList ++ channelName ++ "\" version=\"1.0\">\n".toList) ++ texts ++
      "</channel>\n".toList, ?_, ?_⟩
  · rw [flushText, found]
    rfl
  · rw [List.nil_append] at synced ⊢
    exact synced

/-- The published file is replaced by the whole text, or it is not touched. -/
theorem writeFile_meets (channelName : CString) (properties : PropTree) (files : Files) :
    (writeFile host schedule filename channelName properties files).Meets
      (fun broken => Elsewhere (filename ++ ".new".toList) files.disk broken.disk)
      fun value after =>
        value.1 = withChildren properties (mapDataAll formattedProperty properties.children) ∧
        ∃ text, flushText host channelName properties = .ok text ∧
          after.disk filename = some text ∧ after.disk (filename ++ ".new".toList) = none ∧
          ∀ name, name ≠ filename → name ≠ filename ++ ".new".toList →
            after.disk name = files.disk name := by
  have other : filename ≠ filename ++ ".new".toList := by
    intro same
    have lengths := congrArg List.length same
    simp at lengths
  apply (fopenWrite_meets fun _ _ => rfl).andThen
  intro _ _ opened
  apply (writeChannel_meets channelName properties opened).andThen
  intro written _ wrote
  obtain ⟨same, text, found, staged⟩ := wrote
  apply (settle_meets staged).andThen
  intro _ closed complete
  have renamed : (renameFile schedule (filename ++ ".new".toList) filename closed).Meets
      (fun broken => Elsewhere (filename ++ ".new".toList) files.disk broken.disk)
      fun _ after => after.disk filename = some text ∧
        after.disk (filename ++ ".new".toList) = none ∧
        ∀ name, name ≠ filename → name ≠ filename ++ ".new".toList →
          after.disk name = files.disk name := by
    apply fileOperation_meets complete.kept
    intro device
    dsimp only
    refine ⟨?_, Disk.put_self _ _ _, ?_⟩
    · rw [Disk.put_other _ _ other, Disk.put_self, complete.holding, List.nil_append]
    · intro name apart apart'
      rw [Disk.put_other _ _ apart', Disk.put_other _ _ apart]
      exact complete.kept name apart'
  apply renamed.andThen
  intro _ after published
  exact ⟨same, text, found, published⟩

end Staging

theorem unlike_new (filename : CString) : filename ≠ filename ++ ".new".toList := by
  intro same
  have lengths := congrArg List.length same
  simp at lengths

theorem flushChannel_files (host : Host) (schedule : Schedule) {xbpx : EsconfBackendPerchannelXml}
    {channelName : CString} {channel : EsconfChannel}
    (loaded : xbpx.channels.lookup channelName = some channel) (device : Device) :
    match flushChannel host schedule xbpx channelName device with
    | .stopped disk => Elsewhere (userFileName xbpx channelName ++ ".new".toList) xbpx.disk disk
    | .returned (some _) after _ =>
      Elsewhere (userFileName xbpx channelName ++ ".new".toList) xbpx.disk after.disk
    | .returned none after _ => ∃ text,
      flushText host channelName channel.properties = .ok text ∧
      after.disk (userFileName xbpx channelName) = some text ∧
      after.disk (userFileName xbpx channelName ++ ".new".toList) = none ∧
      ∀ name, name ≠ userFileName xbpx channelName →
        name ≠ userFileName xbpx channelName ++ ".new".toList → after.disk name = xbpx.disk name := by
  have meets := @writeFile_meets host schedule (userFileName xbpx channelName)
    channelName channel.properties
    ⟨xbpx.disk, device⟩
  unfold flushChannel
  rw [loaded]
  dsimp only
  cases written : writeFile host schedule (userFileName xbpx channelName) channelName
      channel.properties ⟨xbpx.disk, device⟩ with
  | done value files =>
      rw [written] at meets
      obtain ⟨_, text, found, published, moved, others⟩ := meets
      exact ⟨text, found, published, moved, others⟩
  | stopped files =>
      rw [written] at meets
      exact meets
  | failed value files =>
      rw [written] at meets
      have kept : Elsewhere (userFileName xbpx channelName ++ ".new".toList) xbpx.disk files.disk :=
        meets
      obtain ⟨properties, isOpen⟩ := value
      cases isOpen with
      | false => exact kept
      | true =>
          have closed : (settle schedule (userFileName xbpx channelName ++ ".new".toList)
              files).Meets (fun broken => Elsewhere
                (userFileName xbpx channelName ++ ".new".toList) xbpx.disk broken.disk)
              fun _ after => Elsewhere
                (userFileName xbpx channelName ++ ".new".toList) xbpx.disk after.disk :=
            fileOperation_meets kept fun _ => kept
          dsimp only
          rw [if_pos rfl]
          cases ended : settle schedule (userFileName xbpx channelName ++ ".new".toList) files with
          | done value closedFiles =>
              rw [ended] at closed
              exact closed
          | failed value closedFiles =>
              rw [ended] at closed
              exact closed
          | stopped closedFiles =>
              rw [ended] at closed
              exact closed

/-- If flushing fails or the process stops, the file of the channel is what it was;
if it succeeds, the file is the whole text of the channel. -/
theorem flush_channel_atomic (host : Host) (schedule : Schedule)
    (xbpx : EsconfBackendPerchannelXml) (channelName : CString) (device : Device) :
    match flushChannel host schedule xbpx channelName device with
    | .stopped disk =>
      disk (userFileName xbpx channelName) = xbpx.disk (userFileName xbpx channelName)
    | .returned (some _) after _ =>
      after.disk (userFileName xbpx channelName) = xbpx.disk (userFileName xbpx channelName)
    | .returned none after _ => ∃ channel text,
      xbpx.channels.lookup channelName = some channel ∧
      flushText host channelName channel.properties = .ok text ∧
      after.disk (userFileName xbpx channelName) = some text := by
  cases found : xbpx.channels.lookup channelName with
  | none =>
      rw [flushChannel, found]
  | some channel =>
      have files := flushChannel_files host schedule found device
      cases flushed : flushChannel host schedule xbpx channelName device with
      | stopped disk =>
          rw [flushed] at files
          exact files _ (unlike_new _)
      | returned error after left =>
          rw [flushed] at files
          cases error with
          | some error => exact files _ (unlike_new _)
          | none =>
              obtain ⟨text, whole, published, _⟩ := files
              exact ⟨channel, text, rfl, whole, published⟩

def Reliable (schedule : Schedule) : Prop := ∀ operation, schedule operation = .done

section Reliable

variable {host : Host} {schedule : Schedule} {filename : CString}

theorem fileOperation_completes (reliable : Reliable schedule) (effect : Disk → Disk)
    (files : Files) : (fileOperation schedule filename effect files).Completes := by
  unfold fileOperation
  rw [reliable]
  exact Attempt.completes_done _ _

theorem writeNodesTo_completes {depth : Nat} {nodes : List PropTree}
    (each : ∀ child ∈ nodes, ∀ depth text files, writeNode host depth child = .ok text →
      (writeNodeTo host schedule filename depth child files).Completes)
    {text : CString} (files : Files) (written : writeNodes host depth nodes = .ok text) :
    (writeNodesTo host schedule filename depth nodes files).Completes := by
  induction nodes generalizing text files with
  | nil => exact Attempt.completes_done _ _
  | cons child rest ih =>
      rw [writeNodes] at written
      cases first : writeNode host depth child with
      | error stop =>
          rw [first] at written
          cases written
      | ok front =>
          rw [first] at written
          cases second : writeNodes host depth rest with
          | error stop =>
              rw [second] at written
              cases written
          | ok back =>
              rw [writeNodesTo]
              apply (each child List.mem_cons_self depth front files first).andThen
              intro child' middle
              apply (ih (fun other member => each other (List.mem_cons_of_mem _ member)) middle
                second).andThen
              intro rest' after
              exact Attempt.completes_done _ _

theorem writeNodeTo_completes (reliable : Reliable schedule) (node : PropTree) :
    ∀ depth text files, writeNode host depth node = .ok text →
      (writeNodeTo host schedule filename depth node files).Completes := by
  induction node using byChildren with
  | step name prop children ih =>
      intro depth text files written
      rw [writeNode] at written
      by_cases fits : clampDepth depth * 2 < maxPropPath
      · rw [if_pos fits] at written
        cases tag : formatXmlTag host (spacesAt depth) prop.value with
        | error stop =>
            rw [tag] at written
            cases written
        | ok pair =>
            rw [tag] at written
            cases below : writeNodes host (clampDepth depth + 1) children with
            | error stop =>
                rw [Except.bind, below] at written
                cases written
            | ok texts =>
                rw [writeNodeTo, if_pos fits, tag]
                apply (fileOperation_completes reliable _ _).andThen
                intro _ opened
                apply (writeNodesTo_completes ih opened below).andThen
                intro children' filled
                split
                · apply (fileOperation_completes reliable _ _).andThen
                  intro _ spaced
                  apply (fileOperation_completes reliable _ _).andThen
                  intro _ closed
                  exact Attempt.completes_done _ _
                · exact Attempt.completes_done _ _
      · rw [if_neg fits] at written
        cases written

theorem writeFile_completes (filename : CString) (reliable : Reliable schedule) {channelName : CString}
    {properties : PropTree} {text : CString} (files : Files)
    (written : flushText host channelName properties = .ok text) :
    (writeFile host schedule filename channelName properties files).Completes := by
  cases nodes : writeNodes host 1 properties.children with
  | error stop =>
      rw [flushText, nodes] at written
      cases written
  | ok texts =>
      apply (fileOperation_completes reliable _ _).andThen
      intro _ opened
      have channel : (writeChannel host schedule (filename ++ ".new".toList) channelName properties
          opened).Completes := by
        apply (fileOperation_completes reliable _ _).andThen
        intro _ header
        apply (fileOperation_completes reliable _ _).andThen
        intro _ started
        apply (writeNodesTo_completes (fun child _ => writeNodeTo_completes reliable child) started
          nodes).andThen
        intro children below
        apply (fileOperation_completes reliable _ _).andThen
        intro _ closing
        apply (fileOperation_completes reliable _ _).andThen
        intro _ flushed
        apply (fileOperation_completes reliable _ _).andThen
        intro _ synced
        exact Attempt.completes_done _ _
      apply channel.andThen
      intro properties' whole
      apply (fileOperation_completes reliable _ _).andThen
      intro _ closed
      apply (fileOperation_completes reliable _ _).andThen
      intro _ renamed
      exact Attempt.completes_done _ _

end Reliable

end Esconf
