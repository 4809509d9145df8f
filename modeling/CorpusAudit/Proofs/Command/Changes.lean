import CorpusAudit.Proofs.Baseline.Histories
import CorpusAudit.Proofs.Storage.Atomicity

/-!
# What commands do to files

A command reads, then writes at most one artifact, and then only prints, so that it does not
fail any more once the artifact is written.  Hence a run that fails has spared all files but
the temporary one, and a run that does not has replaced the file at the one place where
the command writes, if it writes at all (`run_isAtomic`).
-/

namespace CorpusAudit

variable {α β : Type}

/-! ### Programs that only read -/

/-- A program leaves every tree as it is. -/
abbrev LeavesAlone {ε : Type} (x : ExceptT ε (StateM Tree) α) : Prop :=
  Leads (fun t u => u = t) x

theorem isFrame_eq :
  IsFrame fun t u => u = t
  := ⟨fun _ => rfl, fun hst htu => htu.trans hst⟩

theorem Storage.leavesAlone_read (p : Path) :
  LeavesAlone (Storage.read p)
  := fun _ => rfl

theorem Storage.leavesAlone_readJson (d : Decoder α) (p : Path) :
  LeavesAlone (Storage.readJson d p)
  := by
  rw [Storage.readJson]
  apply Leads.bind isFrame_eq (Leads.adapt _ (leavesAlone_read p))
  intro bytes
  split
  · exact Leads.pure isFrame_eq _
  · exact Leads.throw isFrame_eq _

theorem Config.leavesAlone_loadOrDefault (p : Path) :
  LeavesAlone (Config.loadOrDefault p)
  := by
  apply Leads.bind isFrame_eq (Leads.inspect isFrame_eq _)
  intro isThere
  cases isThere with
  | false => exact Leads.pure isFrame_eq _
  | true => exact Leads.bind isFrame_eq (Leads.adapt _ (Storage.leavesAlone_read p)) fun _ _ => rfl

theorem Report.leavesAlone_load (p : Path) :
  LeavesAlone (Report.load p)
  := by
  apply Leads.bind isFrame_eq (Storage.leavesAlone_readJson _ p)
  intro r
  split
  · exact Leads.throw isFrame_eq _
  · exact Leads.pure isFrame_eq _

/-- A report that is loaded can be written, and its counts agree. -/
theorem Report.isWritable_of_load {p : Path} {t u : Tree} {r : Report}
    (h : onTree (load p) t = (.ok r, u)) :
  r.IsWritable ∧ r.faultOf? = none
  := by
  rw [load, onTree_bind_eq_ok_iff] at h
  obtain ⟨r', t', hread, h⟩ := h
  split at h
  · rw [onTree_throw] at h
    simp at h
  · next hfault =>
    obtain rfl : r' = r := Except.ok.inj (Prod.mk.inj h).1
    refine ⟨?_, hfault⟩
    rw [Storage.readJson, onTree_bind_eq_ok_iff] at hread
    obtain ⟨bytes, t'', -, hread⟩ := hread
    split at hread
    · next r'' hdecode =>
      obtain rfl : r'' = r' := Except.ok.inj (Prod.mk.inj hread).1
      exact isWritable_of_ofBytes? hdecode
    · rw [onTree_throw] at hread
      simp at hread

theorem Command.leavesAlone_previousBaseline (p : Path) :
  LeavesAlone (Command.previousBaseline p)
  := by
  apply Leads.tryCatch isFrame_eq
  · intro t
    rw [Baseline.onTree_load?]
  · exact fun _ => Leads.pure isFrame_eq _

theorem ReviewSummary.leavesAlone_readAll (ps : List Path) :
  LeavesAlone (ReviewSummary.readAll ps)
  := by
  induction ps with
  | nil => exact Leads.pure isFrame_eq _
  | cons p ps ih =>
    apply Leads.bind isFrame_eq
    · apply Leads.tryCatch isFrame_eq
      · exact Leads.bind isFrame_eq (Storage.leavesAlone_readJson _ p) fun _ =>
          Leads.pure isFrame_eq _
      · exact fun _ => Leads.pure isFrame_eq _
    · intro found
      exact Leads.bind isFrame_eq ih fun _ => Leads.pure isFrame_eq _

theorem ReviewSummary.leavesAlone_ofDirectory (folder : Path) (now : Time.Instant) :
  LeavesAlone (ReviewSummary.ofDirectory folder now)
  := by
  apply Leads.bind isFrame_eq (Leads.inspect isFrame_eq _)
  intro isThere
  have hread : LeavesAlone (do
      let names ← Storage.located folder (Storage.list folder)
      let read ← ReviewSummary.readAll (ReviewSummary.pathsIn folder (ReviewSummary.reviewFiles names))
      pure (ReviewSummary.ofItems (read.flatMap (·.2)) (read.map (·.1)) now)
      : ExceptT Fault (StateM Tree) ReviewSummary) := by
    apply Leads.bind isFrame_eq
    · exact Leads.adapt _ fun _ => rfl
    · intro names
      exact Leads.bind isFrame_eq (leavesAlone_readAll _) fun _ => Leads.pure isFrame_eq _
  cases isThere with
  | false => exact Leads.bind isFrame_eq (Leads.throw isFrame_eq _) fun _ => hread
  | true => exact hread

/-! ### Changes at one place -/

/-- What has become of the files where a program writes at one place, or nowhere: it has
replaced the file there, or has failed and spared the files. -/
def Tree.ChangedAt {ε : Type} (place? : Option Path) (t u : Tree) : Except ε α → Prop
  | .ok _ => place?.elim (u = t) fun p => t.ReplacesFile p u
  | .error _ => place?.elim (u = t) fun p => t.SparesFiles p u

namespace Tree.ChangedAt

variable {ε ε' : Type} {place? : Option Path} {t u : Tree}

theorem refl (place? : Option Path) (t : Tree) (r : Except ε α) :
  t.ChangedAt place? t r
  := by
  cases place? with
  | none => cases r <;> rfl
  | some p =>
    cases r with
    | ok a => exact fun _ _ _ _ => Iff.rfl
    | error e => exact ⟨fun _ _ h => h, fun _ _ h _ => h⟩

theorem mapError {r : Except ε α} (f : ε → ε') (h : t.ChangedAt place? u r) :
  t.ChangedAt place? u (r.mapError f)
  := by
  cases r <;> exact h

theorem writeAtomic (p : Path) (filling : Filling) (t : Tree) :
  t.ChangedAt (some p) (onTree (Storage.writeAtomic p filling) t).2
    (onTree (Storage.writeAtomic p filling) t).1
  := by
  cases h : onTree (Storage.writeAtomic p filling : ExceptT Fault (StateM Tree) Unit) t with
  | mk result u =>
    cases result with
    | ok a => exact Storage.replacesFile_of_writeAtomic h
    | error e => exact Storage.sparesFiles_of_writeAtomic h

/-- A report that can be written and whose counts agree is promoted unless the writing
fails. -/
theorem promote {p : Path} {r : Report} (hr : r.IsWritable ∧ r.faultOf? = none) (t : Tree) :
  t.ChangedAt (some p) (onTree (Baseline.promote p r) t).2 (onTree (Baseline.promote p r) t).1
  := by
  rw [Baseline.onTree_promote hr.1 hr.2]
  have h := writeAtomic p ⟨Baseline.bytesOf r, none⟩ t
  generalize onTree (Storage.writeAtomic p ⟨Baseline.bytesOf r, none⟩) t = outcome at h ⊢
  rcases outcome with ⟨_ | _, u⟩ <;> exact h

end Tree.ChangedAt

/-! ### Sessions -/

namespace Session

variable {P : α → Prop} {Q : β → Prop} {place? : Option Path} {t : Tree}
  {x : Session (StateM Tree) α} {f : α → Session (StateM Tree) β}

/-- What a session comes to on a tree after something was printed, and the tree it leaves. -/
def runFrom (x : Session (StateM Tree) α) (before : Transcript) (t : Tree) :
    (Except Failure α × Transcript) × Tree :=
  StateT.run (StateT.run (ExceptT.run x) before) t

theorem runFrom_empty (x : Session (StateM Tree) α) (t : Tree) :
  runFrom x .empty t = runOnTree x t
  := rfl

theorem runFrom_bind (x : Session (StateM Tree) α) (f : α → Session (StateM Tree) β)
    (before : Transcript) (t : Tree) :
  runFrom (x >>= f) before t =
    match runFrom x before t with
    | ((.ok a, between), u) => runFrom (f a) between u
    | ((.error e, between), u) => ((.error e, between), u)
  := by
  have hbind : runFrom (x >>= f) before t
      = let r := runFrom x before t
        StateT.run (StateT.run (ExceptT.bindCont f r.1.1) r.1.2) r.2 := rfl
  rw [hbind]
  rcases runFrom x before t with ⟨⟨_ | _, _⟩, _⟩ <;> rfl

theorem runFrom_during (activity : Option String) (x : ExceptT Fault (StateM Tree) α)
    (before : Transcript) (t : Tree) :
  runFrom (during activity x) before t
    = (((onTree x t).1.mapError fun e => ⟨activity, e⟩, before), (onTree x t).2)
  := rfl

/-- A session leaves every tree as it is, and what it comes to has a property. -/
def Reads (P : α → Prop) (x : Session (StateM Tree) α) : Prop :=
  ∀ before t, (runFrom x before t).2 = t ∧ ∀ a, (runFrom x before t).1.1 = .ok a → P a

/-- A session that only prints: it does not fail, and leaves every tree as it is. -/
def Prints (x : Session (StateM Tree) α) : Prop :=
  ∀ t, ∃ a, Ends x t a

/-- A session writes at one place, or nowhere. -/
def WritesAt (place? : Option Path) (x : Session (StateM Tree) α) : Prop :=
  ∀ before (t : Tree), t.ChangedAt place? (runFrom x before t).2 (runFrom x before t).1.1

theorem prints_pure (a : α) :
  Prints (pure a)
  := fun _ => ⟨a, ends_pure a⟩

theorem prints_emit (c : Channel) (s : String) :
  Prints (emit c s)
  := fun _ => ⟨(), ends_emit c s⟩

theorem Prints.bind (hx : Prints x) (hf : ∀ a, Prints (f a)) :
  Prints (x >>= f)
  := by
  intro t
  obtain ⟨a, ha⟩ := hx t
  obtain ⟨b, hb⟩ := hf a t
  exact ⟨b, ends_bind ha hb⟩

/-- Print something and come to a result. -/
theorem prints_emit_pure (c : Channel) (s : String) (a : α) :
  Prints (emit c s >>= fun _ => pure a)
  := (prints_emit c s).bind fun _ => prints_pure a

theorem Prints.reads (hx : Prints x) :
  Reads (fun _ => True) x
  := by
  intro before t
  obtain ⟨a, ha⟩ := hx t
  obtain ⟨after, hrun⟩ := ha before
  rw [runFrom, hrun]
  exact ⟨rfl, fun _ _ => trivial⟩

theorem reads_during {x : ExceptT Fault (StateM Tree) α} (hx : LeavesAlone x)
    (hP : ∀ t a u, onTree x t = (.ok a, u) → P a) (activity : Option String) :
  Reads P (during activity x)
  := by
  intro before t
  rw [runFrom_during]
  refine ⟨hx t, ?_⟩
  intro a ha
  cases h : onTree x t with
  | mk result u =>
    rw [h] at ha
    cases result with
    | error e => simp [Except.mapError] at ha
    | ok a' =>
      obtain rfl : a' = a := Except.ok.inj ha
      exact hP t a' u h

theorem reads_of_leavesAlone {x : ExceptT Fault (StateM Tree) α} (hx : LeavesAlone x)
    (activity : Option String) :
  Reads (fun _ => True) (during activity x)
  := reads_during hx (fun _ _ _ _ => trivial) activity

theorem reads_ofExcept {ε : Type} (fault : ε → Fault) (r : Except ε α) :
  Reads (fun _ => True) (ofExcept fault r)
  := fun _ _ => ⟨rfl, fun _ _ => trivial⟩

theorem Reads.bind (hx : Reads P x) (hf : ∀ a, P a → Reads Q (f a)) :
  Reads Q (x >>= f)
  := by
  intro before t
  obtain ⟨htree, hP⟩ := hx before t
  rw [runFrom_bind]
  generalize runFrom x before t = outcome at htree hP ⊢
  obtain ⟨⟨_ | a, between⟩, u⟩ := outcome
  · exact ⟨htree, by simp⟩
  · obtain rfl : u = t := htree
    exact hf a (hP a rfl) between u

theorem Reads.writesAt (hx : Reads P x) (place? : Option Path) :
  WritesAt place? x
  := by
  intro before t
  rw [(hx before t).1]
  exact .refl place? t _

/-- What is done before anything is written may fail. -/
theorem Reads.bind_writesAt (hx : Reads P x) (hf : ∀ a, P a → WritesAt place? (f a)) :
  WritesAt place? (x >>= f)
  := by
  intro before t
  obtain ⟨htree, hP⟩ := hx before t
  rw [runFrom_bind]
  generalize runFrom x before t = outcome at htree hP ⊢
  obtain ⟨⟨e | a, between⟩, u⟩ := outcome
  · obtain rfl : u = t := htree
    exact .refl place? u _
  · obtain rfl : u = t := htree
    exact hf a (hP a rfl) between u

/-- What is done after something was written may not fail. -/
theorem WritesAt.bind_prints (hx : WritesAt place? x) (hf : ∀ a, Prints (f a)) :
  WritesAt place? (x >>= f)
  := by
  intro before t
  have hchanged := hx before t
  rw [runFrom_bind]
  generalize runFrom x before t = outcome at hchanged ⊢
  obtain ⟨⟨e | a, between⟩, u⟩ := outcome
  · exact hchanged
  · obtain ⟨b, hb⟩ := hf a u
    obtain ⟨after, hrun⟩ := hb between
    dsimp only
    rw [runFrom, hrun]
    exact hchanged

theorem writesAt_during {x : ExceptT Fault (StateM Tree) α}
    (hx : ∀ t : Tree, t.ChangedAt place? (onTree x t).2 (onTree x t).1) (activity : Option String) :
  WritesAt place? (during activity x)
  := by
  intro before t
  rw [runFrom_during]
  exact (hx t).mapError _

end Session

/-! ### Commands -/

namespace Command

open Session

/-- Where a command writes, if it does. -/
def place? (c : Config) (now : Time.Instant) : Command → Option Path
  | .label _ output => some output
  | .report _ output _ _ => output
  | .promote _ baseline => some (baseline.getD c.gate.baseline)
  | .sample _ _ _ output => some (output.getD (Sample.defaultPath c.sampling.folder now))
  | .curate _ _ _ _ output => some output
  | .insights _ output => output
  | .compareReports .. | .compareRecords .. | .summarizeReviews _ | .guide | .localize .. => none

theorem reads_loadCorpus (c : Config) (p : Path) :
  Reads (fun _ => True) (loadCorpus c p)
  := reads_of_leavesAlone (Corpus.load_tree p c.skipLimit) _

theorem reads_loadLabeled (c : Config) (p : Path) :
  Reads (fun _ => True) (loadLabeled c p)
  := by
  apply (reads_loadCorpus c p).bind
  intro corpus _
  dsimp only
  split
  · exact (prints_emit_pure _ _ _).reads
  · exact (prints_pure _).reads

theorem reads_loadReport (p : Path) :
  Reads (fun r : Report => r.IsWritable ∧ r.faultOf? = none) (lift (Report.load p))
  := reads_during (Report.leavesAlone_load p) (fun _ _ _ => Report.isWritable_of_load) _

theorem writesAt_saveIfAsked (p : Option Path) (v : Value) :
  WritesAt p (saveIfAsked p v)
  := by
  cases p with
  | none => exact (prints_pure ()).reads.writesAt none
  | some p => exact writesAt_during (fun t => .writeAtomic p _ t) _

theorem prints_judge (r : Report) (least : Option Grade) :
  Prints (judge r least)
  := by
  cases least with
  | none => exact prints_pure _
  | some least =>
    rw [judge]
    split
    · exact prints_pure _
    · exact prints_emit_pure _ _ _

theorem reads_compare (before after : Snapshot) :
  Reads (fun _ => True) (compare before after)
  := by
  apply (reads_ofExcept _ _).bind
  intro d _
  apply (prints_emit _ _).reads.bind
  intro _ _
  split
  · exact (prints_emit_pure _ _ _).reads
  · exact (prints_emit_pure _ _ _).reads

theorem writesAt_runLabel (c : Config) (corpus output : Path) :
  WritesAt (some output) (runLabel c corpus output : Session (StateM Tree) Ending)
  := by
  apply (reads_loadLabeled c corpus).bind_writesAt
  intro labeled _
  apply (writesAt_during (fun t => .writeAtomic output _ t) _).bind_prints
  exact fun _ => prints_emit_pure _ _ _

theorem writesAt_runReport (c : Config) (now : Time.Instant) (corpus : Path)
    (output : Option Path) (format : Format) (least : Option Grade) :
  WritesAt output (runReport c now corpus output format least : Session (StateM Tree) Ending)
  := by
  apply (reads_loadLabeled c corpus).bind_writesAt
  intro labeled _
  apply (writesAt_saveIfAsked output _).bind_prints
  exact fun _ => (prints_emit _ _).bind fun _ => prints_judge _ _

theorem writesAt_runInsights (c : Config) (now : Time.Instant) (corpus : Path)
    (output : Option Path) :
  WritesAt output (runInsights c now corpus output : Session (StateM Tree) Ending)
  := by
  apply (reads_loadLabeled c corpus).bind_writesAt
  intro labeled _
  apply (writesAt_saveIfAsked output _).bind_prints
  exact fun _ => prints_emit_pure _ _ _

/-- A report that is promoted was read before, so that it is read again from the bytes that
are written. -/
theorem writesAt_runPromote (c : Config) (report : Path) (baseline : Option Path) :
  WritesAt (some (baseline.getD c.gate.baseline))
    (runPromote c report baseline : Session (StateM Tree) Ending)
  := by
  apply (reads_loadReport report).bind_writesAt
  intro r hr
  have hpromote : WritesAt (some (baseline.getD c.gate.baseline)) (do
      let b ← lift (Baseline.promote (baseline.getD c.gate.baseline) r)
      printLines [Messages.newBaseline (baseline.getD c.gate.baseline) b]
      return .success : Session (StateM Tree) Ending) := by
    apply (writesAt_during (fun t => .promote hr t) _).bind_prints
    exact fun _ => prints_emit_pure _ _ _
  apply (reads_of_leavesAlone (leavesAlone_previousBaseline _) none).bind_writesAt
  intro previous _
  -- the baseline that is replaced is only told of
  cases previous with
  | none => exact hpromote
  | some b => exact (prints_emit _ _).reads.bind_writesAt fun _ _ => hpromote

theorem writesAt_runSample (c : Config) (now : Time.Instant) (corpus : Path)
    (fraction : Option Float) (seed : Option Nat) (output : Option Path) :
  WritesAt (some (output.getD (Sample.defaultPath c.sampling.folder now)))
    (runSample c now corpus fraction seed output : Session (StateM Tree) Ending)
  := by
  apply (reads_ofExcept _ _).bind_writesAt
  intro sampler _
  apply (reads_loadLabeled c corpus).bind_writesAt
  intro labeled _
  apply (writesAt_during (fun t => .writeAtomic _ _ t) _).bind_prints
  exact fun _ => prints_emit_pure _ _ _

theorem writesAt_runCurate (c : Config) (corpus : Path) (codes : Option String)
    (quota : Option Nat) (ranking : Option Ranking) (output : Path) :
  WritesAt (some output) (runCurate c corpus codes quota ranking output : Session (StateM Tree) Ending)
  := by
  apply (reads_ofExcept _ _).bind_writesAt
  intro targets _
  apply (reads_ofExcept _ _).bind_writesAt
  intro curator _
  apply (reads_loadLabeled c corpus).bind_writesAt
  intro labeled _
  apply (writesAt_during (fun t => .writeAtomic output _ t) _).bind_prints
  exact fun _ => prints_emit_pure _ _ _

theorem reads_runLocalize (c : Config) (corpus : Path) (formula : Option Formula)
    (format : Format) :
  Reads (fun _ => True) (runLocalize c corpus formula format)
  := by
  apply (reads_loadLabeled c corpus).bind
  intro labeled _
  apply (reads_ofExcept _ _).bind
  intro ranking _
  exact (prints_emit_pure _ _ _).reads

theorem reads_runCompareRecords (c : Config) (before after : Path) :
  Reads (fun _ => True) (runCompareRecords c before after)
  := by
  apply (reads_loadCorpus c before).bind
  intro _ _
  apply (reads_loadCorpus c after).bind
  exact fun _ _ => reads_compare _ _

theorem reads_runCompareReports (c : Config) (before after : Path) (policy : Option PassPolicy) :
  Reads (fun _ => True) (runCompareReports c before after policy)
  := by
  apply (reads_loadReport before).bind
  intro _ _
  apply (reads_loadReport after).bind
  intro _ _
  apply (prints_emit _ _).reads.bind
  exact fun _ _ => reads_compare _ _

theorem reads_runSummarize (c : Config) (now : Time.Instant) (folder : Option Path) :
  Reads (fun _ => True) (runSummarize c now folder)
  := by
  apply (reads_of_leavesAlone (ReviewSummary.leavesAlone_ofDirectory _ now) none).bind
  exact fun _ _ => (prints_emit_pure _ _ _).reads

/-- A command writes at its place, or nowhere. -/
theorem writesAt_runWith (c : Config) (now : Time.Instant) (command : Command) :
  WritesAt (command.place? c now) (runWith c now command)
  := by
  cases command with
  | label corpus output => exact writesAt_runLabel c corpus output
  | report corpus output format least => exact writesAt_runReport c now corpus output format least
  | compareReports before after policy =>
    exact (reads_runCompareReports c before after policy).writesAt none
  | compareRecords before after => exact (reads_runCompareRecords c before after).writesAt none
  | promote source place => exact writesAt_runPromote c source place
  | sample corpus fraction seed output =>
    exact writesAt_runSample c now corpus fraction seed output
  | summarizeReviews folder => exact (reads_runSummarize c now folder).writesAt none
  | guide => exact (prints_emit_pure _ _ _).reads.writesAt none
  | curate corpus codes quota ranking output =>
    exact writesAt_runCurate c corpus codes quota ranking output
  | localize corpus formula format =>
    exact (reads_runLocalize c corpus formula format).writesAt none
  | insights corpus output => exact writesAt_runInsights c now corpus output

end Command

namespace Invocation

open Session (runOnTree)

/-- Where a run writes, if it does; that is a matter of the settings. -/
def place? (i : Invocation) (now : Time.Instant) (t : Tree) : Option Path :=
  (onTree (Config.loadOrDefault i.config) t).1.toOption.bind fun c => i.command.place? c now

/-- A run that fails has spared all files but the temporary one, and a run that does not has
replaced no file but the one at the place where its command writes; without such a place,
nothing has changed. -/
theorem run_isAtomic (i : Invocation) (now : Time.Instant) (t : Tree) :
  let outcome := runOnTree (i.run now) t
  (exitCode outcome.1.1 = 2 →
      (i.place? now t).elim (outcome.2 = t) fun p => t.SparesFiles p outcome.2)
    ∧ (exitCode outcome.1.1 ≠ 2 →
      (i.place? now t).elim (outcome.2 = t) fun p => t.ReplacesFile p outcome.2)
  := by
  have hchanged : t.ChangedAt (i.place? now t) (runOnTree (i.run now) t).2
      (runOnTree (i.run now) t).1.1 := by
    have htree := Config.leavesAlone_loadOrDefault i.config t
    rw [← Session.runFrom_empty, run, Session.runFrom_bind, Command.loadConfig,
      Session.runFrom_during, place?]
    generalize onTree (Config.loadOrDefault i.config : ExceptT Fault (StateM Tree) Config) t
      = settings at htree ⊢
    obtain ⟨e | c, u⟩ := settings
    · -- without settings no command is run
      obtain rfl : u = t := htree
      exact .refl none u _
    · obtain rfl : u = t := htree
      exact Command.writesAt_runWith c now i.command .empty u
  generalize runOnTree (i.run now) t = outcome at hchanged
  obtain ⟨⟨result, transcript⟩, u⟩ := outcome
  cases result with
  | error e => exact ⟨fun _ => hchanged, fun h => absurd rfl h⟩
  | ok ending => cases ending <;> exact ⟨by simp [exitCode], fun _ => hchanged⟩

/-- The command line `label in.jsonl -o out.jsonl`. -/
def labelMissing : Invocation :=
  ⟨.label ⟨"in.jsonl"⟩ ⟨"out.jsonl"⟩, Config.defaultPath⟩

/-- A file where the labels are to be written, and no corpus. -/
def onlyOutput : Tree :=
  ⟨[(["out.jsonl"], .file [1])]⟩

/-- Where there is no corpus to label, the old labels are spared. -/
theorem run_isAtomic_missing_corpus (now : Time.Instant) :
  exitCode (runOnTree (labelMissing.run now) onlyOutput).1.1 = 2
    ∧ onlyOutput.SparesFiles ⟨"out.jsonl"⟩ (runOnTree (labelMissing.run now) onlyOutput).2
  := by
  have hcode : exitCode (runOnTree (labelMissing.run now) onlyOutput).1.1 = 2 := rfl
  exact ⟨hcode, (run_isAtomic labelMissing now onlyOutput).1 hcode⟩

end Invocation

end CorpusAudit
