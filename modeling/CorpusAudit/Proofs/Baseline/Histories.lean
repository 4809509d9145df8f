import CorpusAudit.Baseline.Store
import CorpusAudit.Proofs.Command.Verdict
import CorpusAudit.Proofs.Report.Decoding
import CorpusAudit.Proofs.Storage.Failures

/-!
# Histories of a baseline

A history is what happens at one path: the baseline is loaded, reports are promoted, and
someone else changes the files.  Every `Event` of a history is sound (`Event.IsSound`), so
that nothing is lost when a promote fails, and after a promote that succeeds every load gives
the same baseline, as long as nothing else replaces it.
-/

namespace CorpusAudit

/-! ### Reports that are promoted -/

/-- A report that was made from a corpus, or read from a document. -/
def Report.IsObtained (r : Report) : Prop :=
  (∃ c : Corpus, c.records.length < UInt64.size ∧ r.IsOf c)
    ∨ ∃ bytes, (Json.ofBytes? bytes).bind Report.decode = some r

theorem Report.isWritable_of_isObtained {r : Report} (h : r.IsObtained) :
  r.IsWritable
  := by
  rcases h with ⟨c, hc, formula, most, rules, now, hnow, rfl⟩ | ⟨bytes, hbytes⟩
  · exact isWritable_aggregate (c := ⟨c, rules⟩) hc hnow
  · exact isWritable_of_ofBytes? hbytes

namespace Baseline

variable {p : Path} {r : Report} {b : Baseline} {t u : Tree}

/-- The bytes of the file that a report is written to. -/
def bytesOf (r : Report) : Bytes :=
  Text.encode (Json.render r.toValue)

/-- A report that is written is read, if its counts agree. -/
theorem ofBytes_bytesOf (p : Path) (hr : r.IsWritable) (hfault : r.faultOf? = none) :
  ofBytes p (bytesOf r) = .ok ⟨r.reread, Hash.Blake3.hexDigest (bytesOf r)⟩
  := by
  simp only [ofBytes, bytesOf, Report.decode_render hr, Report.faultOf?_reread, hfault]

/-- A baseline that was read from bytes has counts that agree, and their digest. -/
theorem ofBytes_eq_ok {bytes : Bytes} (h : ofBytes p bytes = .ok b) :
  (Json.ofBytes? bytes).bind Report.decode = some b.report ∧ b.report.faultOf? = none
    ∧ b.digest = Hash.Blake3.hexDigest bytes
  := by
  unfold ofBytes at h
  split at h
  · simp at h
  · next r hr =>
    split at h
    · simp at h
    · next hfault =>
      obtain rfl := Except.ok.inj h
      exact ⟨hr, hfault, rfl⟩

/-! ### Loading -/

/-- At the path is a file from which a baseline is read. -/
def IsAt (p : Path) (b : Baseline) (t : Tree) : Prop :=
  ∃ bytes, t.read p = .ok bytes ∧ ofBytes p bytes = .ok b

theorem onTree_load (p : Path) (t : Tree) :
  onTree (load p) t
    = (((t.read p).mapError fun e => .input p (.file e)).bind (ofBytes p), t)
  := by
  rw [load, onTree_bind, onTree_located_read]
  cases t.read p <;> rfl

theorem onTree_load? (p : Path) (t : Tree) :
  onTree (load? p) t
    = (if t.isPresent p then (onTree (load p) t).1.map some else .ok none, t)
  := by
  have hpresent : onTree (liftM (Storage.isPresent p : StateM Tree Bool)
      : ExceptT Fault (StateM Tree) Bool) t = (.ok (t.isPresent p), t) := rfl
  rw [load?, onTree_bind, hpresent]
  dsimp only
  split
  · rw [onTree_bind, onTree_load]
    generalize ((t.read p).mapError fun e => Fault.input p (.file e)).bind (ofBytes p) = loaded
    cases loaded <;> rfl
  · rfl

theorem load_eq_ok_iff :
  (onTree (load p) t).1 = .ok b ↔ IsAt p b t
  := by
  rw [onTree_load, IsAt]
  cases t.read p with
  | error e => simp [Except.mapError, Except.bind]
  | ok bytes => simp [Except.mapError, Except.bind]

/-! ### Promoting -/

/-- A promote that succeeds has written the report, and gives what is read from it. -/
theorem promote_eq_ok (h : onTree (promote p r) t = (.ok b, u)) :
  onTree (Storage.writeAtomic p ⟨bytesOf r, none⟩) t = (.ok (), u)
    ∧ ofBytes p (bytesOf r) = .ok b
  := by
  unfold promote at h
  dsimp only at h
  split at h
  · rw [onTree_bind, onTree_throw] at h
    simp at h
  · obtain ⟨⟨⟩, v, hwrite, h⟩ := onTree_bind_eq_ok_iff.mp h
    obtain ⟨hbytes, rfl⟩ := Prod.mk.inj h
    exact ⟨hwrite, hbytes⟩

/-- A report whose counts agree is promoted if it is written. -/
theorem onTree_promote (hr : r.IsWritable) (hfault : r.faultOf? = none) (t : Tree) :
  onTree (promote p r) t
    = ((onTree (Storage.writeAtomic p ⟨bytesOf r, none⟩) t).1.map
        fun _ => ⟨r.reread, Hash.Blake3.hexDigest (bytesOf r)⟩,
      (onTree (Storage.writeAtomic p ⟨bytesOf r, none⟩) t).2)
  := by
  have hpromote : promote p r
      = (Storage.writeAtomic p ⟨bytesOf r, none⟩ >>= fun _ =>
          ExceptT.mk (pure (ofBytes p (bytesOf r))) : ExceptT Fault (StateM Tree) Baseline) := by
    simp only [promote, hfault]
    rfl
  rw [hpromote, onTree_bind, ofBytes_bytesOf p hr hfault]
  rcases onTree (Storage.writeAtomic p ⟨bytesOf r, none⟩) t with ⟨_ | _, _⟩ <;> rfl

/-- A report whose counts disagree is refused, and nothing is written. -/
theorem onTree_promote_refused {f : ReportFault} (hfault : r.faultOf? = some f) (t : Tree) :
  onTree (promote p r) t = (.error (.computation (.refused f)), t)
  := by
  simp only [promote, hfault]
  rfl

/-- A promote that fails has written nothing, or has failed to write. -/
theorem promote_eq_error (hr : r.IsWritable) {e : Fault}
    (h : onTree (promote p r) t = (.error e, u)) :
  u = t ∨ onTree (Storage.writeAtomic p ⟨bytesOf r, none⟩) t = (.error e, u)
  := by
  cases hfault : r.faultOf? with
  | some f =>
    rw [onTree_promote_refused hfault] at h
    exact .inl (Prod.mk.inj h).2.symm
  | none =>
    rw [onTree_promote hr hfault] at h
    right
    generalize onTree (Storage.writeAtomic p ⟨bytesOf r, none⟩) t = outcome at h ⊢
    rcases outcome with ⟨e' | _, v⟩
    · simpa [Except.map] using h
    · simp [Except.map] at h

theorem leads_isClosed_promote (p : Path) (r : Report) :
  Leads (fun t u => t.IsClosed → u.IsClosed) (promote p r)
  := by
  have hR := Storage.isFrame_isClosed
  unfold promote
  dsimp only
  split
  · exact Leads.bind hR (Leads.throw hR _) fun _ =>
      Leads.bind hR (Storage.leads_isClosed_writeAtomic _ _) fun _ => hR.refl
  · exact Leads.bind hR (Storage.leads_isClosed_writeAtomic _ _) fun _ => hR.refl

/-! ### Histories -/

/-- What happens at the path of a baseline. -/
inductive Operation where
  | load
  | load?
  | promote (r : Report)
  /-- Someone else changes the files, so that there is the given tree. -/
  | outside (u : Tree)

/-- The reports that are promoted come from corpora or documents, and others leave no loose
ends. -/
def Operation.IsAdmissible : Operation → Prop
  | .load => True
  | .load? => True
  | .promote r => r.IsObtained
  | .outside u => u.IsClosed

/-- What an operation gives, and the tree that it leaves. -/
def step (p : Path) (t : Tree) : Operation → Except Fault (Option Baseline) × Tree
  | .load => ((onTree (load p) t).1.map some, (onTree (load p) t).2)
  | .load? => onTree (load? p) t
  | .promote r => ((onTree (promote p r) t).1.map some, (onTree (promote p r) t).2)
  | .outside u => (.ok none, u)

/-- An operation with the trees before and after it, and what it gave. -/
structure Event where
  before : Tree
  operation : Operation
  reply : Except Fault (Option Baseline)
  after : Tree

/-- The event that an operation is on a tree. -/
def event (p : Path) (t : Tree) (op : Operation) : Event :=
  ⟨t, op, (step p t op).1, (step p t op).2⟩

/-- What happens when one operation is done after the other. -/
def history (p : Path) (t : Tree) : List Operation → List Event
  | [] => []
  | op :: ops => event p t op :: history p (step p t op).2 ops

namespace Event

/-- The baseline is loaded. -/
def IsLoad (e : Event) : Prop :=
  e.operation = .load ∨ e.operation = .load?

/-- A report is promoted, and the baseline is now the given one. -/
def Promotes (e : Event) (b : Baseline) : Prop :=
  (∃ r, e.operation = .promote r) ∧ e.reply = .ok (some b)

/-- A report is not promoted. -/
def FailsToPromote (e : Event) : Prop :=
  (∃ r, e.operation = .promote r) ∧ ∃ f, e.reply = .error f

/-- What is true of every event at the path `p`. -/
structure IsSound (p : Path) (e : Event) : Prop where
  /-- To load changes nothing. -/
  load : e.IsLoad → e.after = e.before
  /-- To promote a report leaves its document at the path and nothing at the temporary one. -/
  promote : ∀ r b, e.operation = .promote r → e.reply = .ok (some b) →
    e.after.read p = .ok (Text.encode (Json.render r.toValue))
      ∧ e.after.isPresent p.temporary = false
      ∧ b.digest = Hash.Blake3.hexDigest (Text.encode (Json.render r.toValue))
  /-- A report whose counts disagree is not promoted, and nothing changes. -/
  refused : ∀ r f, e.operation = .promote r → r.faultOf? = some f →
    e.reply = .error (.computation (.refused f)) ∧ e.after = e.before
  /-- To fail to promote a report leaves what the path leads to, unless it goes up and a
  directory on it is missing. -/
  failure : e.FailsToPromote → e.before.place p ≠ .error .notFound ∨ ".." ∉ p.names →
    e.after.found? p = e.before.found? p
  /-- Whatever the path is, the failure leaves the files, but for one at the temporary path,
  and the directories; no file is new, and only directories that the path lies in are. -/
  spared : e.FailsToPromote → e.before.SparesFiles p e.after ∧ e.before.AddsFolders p e.after
  /-- What the path leads to after the failure was there before, or it is a directory that was
  made. -/
  leads : e.FailsToPromote → ∀ l n, e.after.resolve p = .ok (l, n) →
    e.before.node? l = some n
      ∨ n = .directory ∧ ∃ q ∈ p.folders, e.after.resolve q = .ok (l, .directory)
  /-- The baseline that is given is the one that the file at the path holds, and its counts
  agree. -/
  reply : ∀ b, e.reply = .ok (some b) → b.report.faultOf? = none
    ∧ ∃ bytes, e.after.read p = .ok bytes
      ∧ (Json.ofBytes? bytes).bind Report.decode = some b.report
      ∧ b.digest = Hash.Blake3.hexDigest bytes

end Event

/-! ### One operation -/

variable {op : Operation}

/-- Others may write bytes at the path, remove the file there, or make a directory. -/
theorem isAdmissible_outside (ht : t.IsClosed)
    (h : (∃ c, t.write p c = .ok u) ∨ t.remove p = .ok u ∨ t.createDirectory p = .ok u) :
  (Operation.outside u).IsAdmissible
  := by
  rcases h with ⟨c, hwrite⟩ | hremove | hcreate
  · exact ht.write hwrite
  · exact ht.remove hremove
  · exact ht.createDirectory hcreate

theorem isClosed_step (ht : t.IsClosed) (hop : op.IsAdmissible) :
  (step p t op).2.IsClosed
  := by
  cases op with
  | load =>
    rw [step, onTree_load]
    exact ht
  | load? =>
    rw [step, onTree_load?]
    exact ht
  | promote r => exact leads_isClosed_promote p r t ht
  | outside u => exact hop

theorem map_some_eq_ok {x : Except Fault Baseline} :
  x.map some = .ok (some b) ↔ x = .ok b
  := by
  cases x <;> simp [Except.map]

/-- The baseline that is given is the one at the path. -/
theorem isAt_of_reply (h : (step p t op).1 = .ok (some b)) :
  IsAt p b (step p t op).2
  := by
  cases op with
  | load =>
    rw [step, onTree_load]
    exact load_eq_ok_iff.mp (map_some_eq_ok.mp h)
  | load? =>
    rw [step, onTree_load?] at h ⊢
    dsimp only at h
    split at h
    · exact load_eq_ok_iff.mp (map_some_eq_ok.mp h)
    · simp at h
  | promote r =>
    have hpromote := map_some_eq_ok.mp h
    obtain ⟨hwrite, hbytes⟩ := promote_eq_ok (Prod.ext hpromote rfl)
    exact ⟨bytesOf r, Storage.read_writeAtomic hwrite, hbytes⟩
  | outside u => simp [step] at h

/-- A failure is one of writing the report, or it leaves everything. -/
theorem step_of_failure (hop : op.IsAdmissible) (h : (event p t op).FailsToPromote) :
  (step p t op).2 = t
    ∨ ∃ filling e, onTree (Storage.writeAtomic p filling) t = (.error e, (step p t op).2)
  := by
  obtain ⟨⟨r, rfl⟩, f, hreply⟩ := h
  cases hpromote : onTree (promote p r) t with
  | mk result u =>
    rw [event, step, hpromote] at hreply
    rw [step, hpromote]
    cases result with
    | ok b => simp [Except.map] at hreply
    | error e =>
      rcases promote_eq_error (Report.isWritable_of_isObtained hop) hpromote with rfl | hwrite
      · exact .inl rfl
      · exact .inr ⟨_, _, hwrite⟩

/-- A failure leaves what the path leads to. -/
theorem found?_of_failure (ht : t.IsClosed) (hop : op.IsAdmissible)
    (h : (event p t op).FailsToPromote) (hp : t.place p ≠ .error .notFound ∨ ".." ∉ p.names) :
  (step p t op).2.found? p = t.found? p
  := by
  rcases step_of_failure hop h with hsame | ⟨filling, e, hwrite⟩
  · rw [hsame]
  · exact Storage.found?_of_writeAtomic_error ht hwrite hp

/-- A failure leaves the files and makes no other directories than those the path lies in. -/
theorem spared_of_failure (hop : op.IsAdmissible) (h : (event p t op).FailsToPromote) :
  t.SparesFiles p (step p t op).2 ∧ t.AddsFolders p (step p t op).2
  := by
  rcases step_of_failure hop h with hsame | ⟨filling, e, hwrite⟩
  · rw [hsame]
    exact ⟨.refl p t, .refl p t⟩
  · have hfolders := Storage.addsFolders_of_writeAtomic p filling t
    rw [hwrite] at hfolders
    exact ⟨Storage.sparesFiles_of_writeAtomic hwrite, hfolders⟩

/-- Whatever happens at the path is sound. -/
theorem isSound_event (ht : t.IsClosed) (hop : op.IsAdmissible) :
  (event p t op).IsSound p
  where
  load := by
    rintro (rfl | rfl)
    · rw [event, step, onTree_load]
    · rw [event, step, onTree_load?]
  promote := by
    rintro r b rfl hreply
    obtain ⟨hwrite, hbytes⟩ := promote_eq_ok (Prod.ext (map_some_eq_ok.mp hreply) rfl)
    exact ⟨Storage.read_writeAtomic hwrite, Storage.isPresent_temporary hwrite,
      (ofBytes_eq_ok hbytes).2.2⟩
  refused := by
    rintro r f rfl hfault
    rw [event, step, onTree_promote_refused hfault]
    exact ⟨rfl, rfl⟩
  failure := found?_of_failure ht hop
  spared := spared_of_failure hop
  leads := by
    intro hfails l n
    obtain ⟨hfiles, hfolders⟩ := spared_of_failure hop hfails
    exact Tree.node_of_resolve (isClosed_step ht hop) hfiles hfolders
  reply := by
    intro b hreply
    obtain ⟨bytes, hread, hbytes⟩ := isAt_of_reply hreply
    obtain ⟨hdecode, hfault, hdigest⟩ := ofBytes_eq_ok hbytes
    exact ⟨hfault, bytes, hread, hdecode, hdigest⟩

theorem load_of_isAt (h : IsAt p b t) :
  (step p t .load).1 = .ok (some b) ∧ (step p t .load?).1 = .ok (some b)
  := by
  have hload := load_eq_ok_iff.mpr h
  obtain ⟨bytes, hread, -⟩ := h
  have hpresent : t.isPresent p = true := by
    obtain ⟨found, hfound, -⟩ := bind_eq_ok_iff.mp hread
    rw [Tree.isPresent, hfound]
  constructor
  · rw [step, hload]
    rfl
  · rw [step, onTree_load?, if_pos hpresent, hload]
    rfl

/-- The baseline stays where it is when it is loaded, or a report is not promoted. -/
theorem isAt_step (ht : t.IsClosed) (hop : op.IsAdmissible) (hb : IsAt p b t)
    (h : (event p t op).IsLoad ∨ (event p t op).FailsToPromote) :
  IsAt p b (step p t op).2
  := by
  have hsound : (event p t op).IsSound p := isSound_event ht hop
  rcases h with hload | hfails
  · have hsame : (step p t op).2 = t := hsound.load hload
    rwa [hsame]
  · obtain ⟨bytes, hread, hbytes⟩ := hb
    obtain ⟨found, hfound, hfile⟩ := bind_eq_ok_iff.mp hread
    obtain ⟨place, hplace, -⟩ := bind_eq_ok_iff.mp hfound
    have hsame : (step p t op).2.found? p = t.found? p :=
      hsound.failure hfails (.inl fun hmissing => by simp [event, hplace] at hmissing)
    exact ⟨bytes, Tree.read_of_found? hsame hread, hbytes⟩

/-! ### All operations -/

variable {ops : List Operation}

/-- A history that is not empty starts with an operation. -/
theorem history_eq_cons (hops : ∀ op ∈ ops, op.IsAdmissible) {e : Event} {later : List Event}
    (h : history p t ops = e :: later) :
  ∃ op rest, op.IsAdmissible ∧ (∀ op ∈ rest, op.IsAdmissible) ∧ e = event p t op
    ∧ later = history p (step p t op).2 rest
  := by
  cases ops with
  | nil => simp [history] at h
  | cons op rest =>
    obtain ⟨rfl, rfl⟩ := List.cons.inj h
    rw [List.forall_mem_cons] at hops
    exact ⟨op, rest, hops.1, hops.2, rfl, rfl⟩

/-- Every event is one operation on a tree without loose ends, and what happens after it is
a history that starts on the tree that it leaves. -/
theorem exists_event (ht : t.IsClosed) (hops : ∀ op ∈ ops, op.IsAdmissible)
    {earlier later : List Event} {e : Event} (h : history p t ops = earlier ++ e :: later) :
  ∃ u op rest, u.IsClosed ∧ op.IsAdmissible ∧ (∀ op ∈ rest, op.IsAdmissible) ∧ e = event p u op
    ∧ later = history p (step p u op).2 rest
  := by
  induction earlier generalizing t ops with
  | nil =>
    obtain ⟨op, rest, hop, hrest, he, hlater⟩ := history_eq_cons hops h
    exact ⟨t, op, rest, ht, hop, hrest, he, hlater⟩
  | cons d earlier ih =>
    obtain ⟨op, rest, hop, hrest, -, hlater⟩ := history_eq_cons hops h
    exact ih (isClosed_step ht hop) hrest hlater.symm

/-- As long as the baseline is only loaded, or reports are not promoted, every load gives
the baseline that is at the path. -/
theorem reply_of_isAt (ht : t.IsClosed) (hops : ∀ op ∈ ops, op.IsAdmissible) (hb : IsAt p b t)
    {between after : List Event} {later : Event}
    (h : history p t ops = between ++ later :: after)
    (hbetween : ∀ e ∈ between, e.IsLoad ∨ e.FailsToPromote) (hlater : later.IsLoad) :
  later.reply = .ok (some b)
  := by
  induction between generalizing t ops with
  | nil =>
    obtain ⟨op, rest, -, -, rfl, -⟩ := history_eq_cons hops h
    rcases hlater with rfl | rfl
    · exact (load_of_isAt hb).1
    · exact (load_of_isAt hb).2
  | cons e between ih =>
    obtain ⟨op, rest, hop, hrest, rfl, htail⟩ := history_eq_cons hops h
    rw [List.forall_mem_cons] at hbetween
    exact ih (isClosed_step ht hop) hrest (isAt_step ht hop hb hbetween.1) htail.symm hbetween.2

/-- Every event of a history is sound, and after a promote that succeeds every load gives
the same baseline, until another one succeeds or someone else changes the files. -/
theorem history_isSound (ht : t.IsClosed) (hops : ∀ op ∈ ops, op.IsAdmissible) :
  (∀ e ∈ history p t ops, e.IsSound p)
    ∧ ∀ earlier e between later after,
      history p t ops = earlier ++ e :: (between ++ later :: after) →
      ∀ b, e.Promotes b → (∀ d ∈ between, d.IsLoad ∨ d.FailsToPromote) → later.IsLoad →
      later.reply = .ok (some b)
  := by
  constructor
  · intro e he
    obtain ⟨earlier, later, h⟩ := List.append_of_mem he
    obtain ⟨u, op, -, hu, hop, -, rfl, -⟩ := exists_event ht hops h
    exact isSound_event hu hop
  · intro earlier e between later after h b hpromotes hbetween hlater
    obtain ⟨u, op, rest, hu, hop, hrest, rfl, hhistory⟩ := exists_event ht hops h
    -- the baseline is at the path from the promote on
    have hat : IsAt p b (step p u op).2 := isAt_of_reply hpromotes.2
    exact reply_of_isAt (isClosed_step hu hop) hrest hat hhistory.symm hbetween hlater

/-- The report on no records. -/
def emptyReport : Report :=
  .aggregate .tarantula 5 ⟨.ofRecords [], .default⟩ ⟨⟨2021, 3, 4⟩, 5, 6, 7, 0⟩

theorem isObtained_emptyReport :
  emptyReport.IsObtained
  := .inl ⟨.ofRecords [], by decide, .tarantula, 5, .default, ⟨⟨2021, 3, 4⟩, 5, 6, 7, 0⟩,
    ⟨rfl, rfl, by decide, by decide, by decide, .inl (by decide)⟩, rfl⟩

/-- A report that says that one of no records passes. -/
def wrongReport : Report :=
  ({ emptyReport with passed := 1 } : Report).reread

theorem isObtained_wrongReport :
  wrongReport.IsObtained
  := by
  have hwritable := Report.isWritable_of_isObtained isObtained_emptyReport
  have hwrong : ({ emptyReport with passed := 1 } : Report).IsWritable :=
    { hwritable with passed := by decide }
  exact .inr ⟨_, Report.decode_render hwrong⟩

/-- After a report was promoted and another one was not, the first one is loaded. -/
theorem history_isSound_two_promotes :
  ∃ first second third b,
    history ⟨"ci/baseline.json"⟩ .empty [.promote emptyReport, .promote wrongReport, .load]
      = [first, second, third]
    ∧ first.Promotes b ∧ second.FailsToPromote ∧ third.reply = .ok (some b)
  := by
  have hops : ∀ op ∈ [Operation.promote emptyReport, .promote wrongReport, .load],
      op.IsAdmissible := by
    simp [Operation.IsAdmissible, isObtained_emptyReport, isObtained_wrongReport]
  have hwrite : (onTree (Storage.writeAtomic ⟨"ci/baseline.json"⟩ ⟨bytesOf emptyReport, none⟩)
      .empty).1 = .ok () := rfl
  have hpromotes : (event ⟨"ci/baseline.json"⟩ .empty (.promote emptyReport)).Promotes
      ⟨emptyReport.reread, Hash.Blake3.hexDigest (bytesOf emptyReport)⟩ := by
    refine ⟨⟨emptyReport, rfl⟩, ?_⟩
    rw [event, step, onTree_promote (Report.isWritable_of_isObtained isObtained_emptyReport) rfl,
      hwrite]
    rfl
  have hfails (t : Tree) :
      (event ⟨"ci/baseline.json"⟩ t (.promote wrongReport)).FailsToPromote :=
    ⟨⟨wrongReport, rfl⟩, .computation (.refused (.outcomes 1 0 0)), rfl⟩
  refine ⟨_, _, _, _, rfl, hpromotes, hfails _, ?_⟩
  exact (history_isSound Tree.isClosed_empty hops).2 [] _ [_] _ [] rfl _ hpromotes
    (List.forall_mem_singleton.mpr (.inr (hfails _))) (.inl rfl)

/-- A report is not promoted at a path that goes up through directories that are missing, and
then there is a directory. -/
theorem failure_makes_directory :
  emptyReport.IsObtained
    ∧ (event ⟨"a/b/../b"⟩ .empty (.promote emptyReport)).FailsToPromote
    ∧ (event ⟨"a/b/../b"⟩ .empty (.promote emptyReport)).before.found? ⟨"a/b/../b"⟩ = none
    ∧ (event ⟨"a/b/../b"⟩ .empty (.promote emptyReport)).after.found? ⟨"a/b/../b"⟩
      = some (["a", "b"], .directory)
  := by
  have hwrite : (onTree (Storage.writeAtomic ⟨"a/b/../b"⟩ ⟨bytesOf emptyReport, none⟩) .empty).1
      = .error (.input ⟨"a/b/../b"⟩ (.file .isDirectory)) := rfl
  refine ⟨isObtained_emptyReport, ⟨⟨emptyReport, rfl⟩, .input ⟨"a/b/../b"⟩ (.file .isDirectory), ?_⟩,
    ?_, ?_⟩
  · rw [event, step, onTree_promote (Report.isWritable_of_isObtained isObtained_emptyReport) rfl,
      hwrite]
    rfl
  · decide +kernel
  · decide +kernel

end Baseline

end CorpusAudit
