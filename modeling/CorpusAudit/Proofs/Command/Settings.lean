import CorpusAudit.Proofs.Command.Changes
import CorpusAudit.Proofs.Gate.Comparing
import CorpusAudit.Proofs.Rule.Precedence

/-!
# Settings that are accepted

Settings are checked when they are read, and again by the parts of the program that use them.
The two checks agree on rules and on targets.  They do not agree on samples: a fraction that
is accepted may be too small to be told from zero in millionths.  So a command that takes its
fraction and its codes from the settings fails for the settings exactly if it draws a sample
with such a fraction (`Invocation.run_of_accepted`).
-/

namespace CorpusAudit

variable {ε α β : Type}

/-! ### Faults of programs -/

/-- The fault is none of the settings. -/
def Fault.IsElsewhere (e : Fault) : Prop :=
  ∀ f, e ≠ .configuration f

theorem Fault.isElsewhere_input (p : Path) (c : Cause) :
  (input p c).IsElsewhere
  := nofun

theorem Fault.isElsewhere_schema (f : SchemaFault) :
  (schema f).IsElsewhere
  := nofun

theorem Fault.isElsewhere_computation (f : ComputationFault) :
  (computation f).IsElsewhere
  := nofun

/-- A program does not fail for the settings. -/
def IsTolerant (x : ExceptT Fault (StateM Tree) α) : Prop :=
  ∀ t e, (onTree x t).1 = .error e → e.IsElsewhere

namespace IsTolerant

variable {x : ExceptT Fault (StateM Tree) α}

theorem pure (a : α) :
  IsTolerant (Pure.pure a)
  := by
  intro t e h
  simp at h

theorem throw {e : Fault} (h : e.IsElsewhere) :
  IsTolerant (MonadExcept.throw e : ExceptT Fault (StateM Tree) α)
  := by
  intro t e' he'
  obtain rfl : e = e' := by simpa using he'
  exact h

theorem mk_pure {r : Except Fault α} (h : ∀ e, r = .error e → e.IsElsewhere) :
  IsTolerant (ExceptT.mk (Pure.pure r))
  := fun _ e he => h e he

theorem inspect (f : Tree → α) :
  IsTolerant (liftM (Tree.inspect f))
  := by
  intro t e h
  have hok : (onTree (liftM (Tree.inspect f) : ExceptT Fault (StateM Tree) α) t).1 = .ok (f t) :=
    rfl
  rw [hok] at h
  simp at h

theorem bind {f : α → ExceptT Fault (StateM Tree) β} (hx : IsTolerant x)
    (hf : ∀ a, IsTolerant (f a)) :
  IsTolerant (x >>= f)
  := by
  intro t e h
  rcases onTree_bind_eq_error_iff.mp (Prod.ext h rfl) with h | ⟨a, t', -, h⟩
  · exact hx t e (congrArg Prod.fst h)
  · exact hf a t' e (congrArg Prod.fst h)

/-- The faults that are caught do not matter. -/
theorem tryCatch {f : Fault → ExceptT Fault (StateM Tree) α} (hf : ∀ e, IsTolerant (f e)) :
  IsTolerant (MonadExcept.tryCatch x f)
  := by
  intro t e h
  obtain ⟨e', t', -, h⟩ := onTree_tryCatch_eq_error_iff.mp (Prod.ext h rfl)
  exact hf e' t' e (congrArg Prod.fst h)

theorem adapt {x : ExceptT ε (StateM Tree) α} {f : ε → Fault} (h : ∀ e, (f e).IsElsewhere) :
  IsTolerant (x.adapt f)
  := by
  intro t e he
  obtain ⟨e', -, rfl⟩ := onTree_adapt_eq_error_iff.mp (Prod.ext he rfl)
  exact h e'

end IsTolerant

open Fault

/-! ### Reading and writing files is no matter of the settings -/

namespace Storage

theorem isTolerant_located (p : Path) (x : ExceptT FileFault (StateM Tree) α) :
  IsTolerant (located p x)
  := IsTolerant.adapt fun _ => isElsewhere_input _ _

theorem isTolerant_readDocument (p : Path) :
  IsTolerant (readDocument p : ExceptT Fault (StateM Tree) Bytes)
  := IsTolerant.adapt fun _ => isElsewhere_input _ _

theorem isTolerant_readJson (d : Decoder α) (p : Path) :
  IsTolerant (readJson d p : ExceptT Fault (StateM Tree) α)
  := by
  apply (isTolerant_readDocument p).bind
  intro bytes
  split
  · exact IsTolerant.pure _
  · exact IsTolerant.throw (isElsewhere_input _ _)

theorem isTolerant_writeAtomic (p : Path) (filling : Filling) :
  IsTolerant (writeAtomic p filling : ExceptT Fault (StateM Tree) Unit)
  := by
  have hcommit := isTolerant_located p (commitOrClean p filling)
  rw [writeAtomic]
  split
  · split
    · exact (isTolerant_located _ _).bind fun _ => hcommit
    · exact hcommit
  · exact hcommit

end Storage

theorem Corpus.isTolerant_load (p : Path) (limit : Float) :
  IsTolerant (load p limit : ExceptT Fault (StateM Tree) Corpus)
  := by
  have hschema {x : Except SchemaFault Corpus} {e : Fault} (h : x.mapError Fault.schema = .error e) :
      e.IsElsewhere := by
    cases x with
    | error f =>
      obtain rfl : Fault.schema f = e := by simpa [Except.mapError] using h
      exact isElsewhere_schema f
    | ok c => simp [Except.mapError] at h
  have harray {bytes : Bytes} {e : Fault} (h : ofArray p limit bytes = .error e) :
      e.IsElsewhere := by
    rw [ofArray] at h
    split at h
    · obtain rfl := Except.error.inj h
      exact isElsewhere_input _ _
    · exact hschema h
    · obtain rfl := Except.error.inj h
      exact isElsewhere_schema _
  rw [load]
  split
  · exact (Storage.isTolerant_readDocument p).bind fun _ => IsTolerant.mk_pure fun _ => harray
  · exact (Storage.isTolerant_located p _).bind fun _ => IsTolerant.mk_pure fun _ => hschema
  · apply (Storage.isTolerant_located p _).bind
    intro bytes
    apply IsTolerant.mk_pure
    intro e h
    rw [ofBytes.eq_def] at h
    split at h
    · exact harray h
    · exact hschema h

theorem Report.isTolerant_load (p : Path) :
  IsTolerant (load p : ExceptT Fault (StateM Tree) Report)
  := by
  apply (Storage.isTolerant_readJson decode p).bind
  intro r
  split
  · exact IsTolerant.throw (isElsewhere_input _ _)
  · exact IsTolerant.pure _

theorem Baseline.isTolerant_promote (p : Path) (r : Report) :
  IsTolerant (promote p r : ExceptT Fault (StateM Tree) Baseline)
  := by
  have hwrite : IsTolerant (do
      Storage.writeAtomic p ⟨Text.encode (Json.render r.toValue), none⟩
      ExceptT.mk (pure (ofBytes p (Text.encode (Json.render r.toValue))))
      : ExceptT Fault (StateM Tree) Baseline) := by
    apply (Storage.isTolerant_writeAtomic p _).bind
    intro _
    apply IsTolerant.mk_pure
    intro e h
    rw [ofBytes] at h
    split at h
    · obtain rfl := Except.error.inj h
      exact isElsewhere_input _ _
    · split at h
      · obtain rfl := Except.error.inj h
        exact isElsewhere_input _ _
      · simp at h
  rw [promote]
  split
  · exact (IsTolerant.throw (isElsewhere_computation _)).bind fun _ => hwrite
  · exact hwrite

theorem ReviewSummary.isTolerant_readAll (ps : List Path) :
  IsTolerant (readAll ps : ExceptT Fault (StateM Tree) _)
  := by
  induction ps with
  | nil => exact IsTolerant.pure _
  | cons p ps ih =>
    rw [readAll]
    apply IsTolerant.bind (IsTolerant.tryCatch fun _ => IsTolerant.pure _)
    intro found
    exact ih.bind fun _ => IsTolerant.pure _

theorem ReviewSummary.isTolerant_ofDirectory (folder : Path) (now : Time.Instant) :
  IsTolerant (ofDirectory folder now : ExceptT Fault (StateM Tree) ReviewSummary)
  := by
  rw [ofDirectory]
  apply IsTolerant.bind (IsTolerant.inspect _)
  intro isThere
  have hread : IsTolerant (do
      let names ← Storage.located folder (Storage.list folder)
      let read ← readAll (pathsIn folder (reviewFiles names))
      pure (ofItems (read.flatMap (·.2)) (read.map (·.1)) now)
      : ExceptT Fault (StateM Tree) ReviewSummary) := by
    apply (Storage.isTolerant_located folder _).bind
    intro names
    exact (isTolerant_readAll _).bind fun _ => IsTolerant.pure _
  cases isThere with
  | false => exact (IsTolerant.throw (isElsewhere_input _ _)).bind fun _ => hread
  | true => exact hread

/-! ### Faults of sessions -/

namespace Session

variable {x : Session (StateM Tree) α} {f : α → Session (StateM Tree) β}

/-- A session does not fail for the settings. -/
def AcceptsSettings (x : Session (StateM Tree) α) : Prop :=
  ∀ before t e, (runFrom x before t).1.1 = .error e → e.fault.IsElsewhere

theorem Prints.acceptsSettings (hx : Prints x) :
  AcceptsSettings x
  := by
  intro before t e h
  obtain ⟨a, ha⟩ := hx t
  obtain ⟨after, hrun⟩ := ha before
  rw [runFrom, hrun] at h
  simp at h

theorem AcceptsSettings.bind (hx : AcceptsSettings x) (hf : ∀ a, AcceptsSettings (f a)) :
  AcceptsSettings (x >>= f)
  := by
  intro before t e h
  have hfirst := hx before t
  rw [runFrom_bind] at h
  generalize runFrom x before t = outcome at hfirst h
  obtain ⟨⟨e' | a, between⟩, u⟩ := outcome
  · obtain rfl : e' = e := by simpa using h
    exact hfirst e' rfl
  · exact hf a between u e h

theorem acceptsSettings_during {x : ExceptT Fault (StateM Tree) α} (hx : IsTolerant x)
    (activity : Option String) :
  AcceptsSettings (during activity x)
  := by
  intro before t e h
  rw [runFrom_during] at h
  cases hrun : (onTree x t).1 with
  | ok a => simp [hrun, Except.mapError] at h
  | error e' =>
    obtain rfl : ⟨activity, e'⟩ = e := by simpa [hrun, Except.mapError] using h
    exact hx t e' hrun

theorem acceptsSettings_ofExcept_computation (r : Except ComputationFault α) :
  AcceptsSettings (ofExcept .computation r)
  := by
  cases r with
  | ok a => exact (prints_pure a).acceptsSettings
  | error e =>
    intro before t e' h
    obtain rfl : (⟨none, .computation e⟩ : Failure) = e' := Except.error.inj h
    exact isElsewhere_computation e

/-- A computation that succeeds hands its result on. -/
theorem ofExcept_ok_bind {ε : Type} (fault : ε → Fault) {r : Except ε α} {a : α} (h : r = .ok a) :
  (ofExcept fault r >>= f : Session (StateM Tree) β) = f a
  := by
  rw [h]
  rfl

end Session

/-! ### Commands -/

namespace Command

open Session

/-- The command takes its fraction, if it draws a sample, and its codes, if it curates, from
the settings. -/
def TakesSettings : Command → Prop
  | .sample _ fraction _ _ => fraction = none
  | .curate _ codes _ _ _ => codes = none
  | _ => True

/-- The command draws a sample. -/
def DrawsSample : Command → Prop
  | .sample .. => True
  | _ => False

variable {c : Config}

theorem acceptsSettings_loadCorpus (c : Config) (p : Path) :
  AcceptsSettings (loadCorpus c p)
  := acceptsSettings_during (Corpus.isTolerant_load p c.skipLimit) _

theorem acceptsSettings_loadLabeled (c : Config) (p : Path) :
  AcceptsSettings (loadLabeled c p)
  := by
  apply (acceptsSettings_loadCorpus c p).bind
  intro corpus
  dsimp only
  split
  · exact (prints_emit_pure _ _ _).acceptsSettings
  · exact (prints_pure _).acceptsSettings

theorem acceptsSettings_save (p : Path) (v : Value) :
  AcceptsSettings (save p v)
  := acceptsSettings_during (Storage.isTolerant_writeAtomic p _) _

theorem acceptsSettings_saveIfAsked (p : Option Path) (v : Value) :
  AcceptsSettings (saveIfAsked p v)
  := by
  cases p with
  | none => exact (prints_pure ()).acceptsSettings
  | some p => exact acceptsSettings_save p v

/-- Snapshots of one level can be compared. -/
theorem acceptsSettings_compare {before after : Snapshot} (h : before.level = after.level) :
  AcceptsSettings (compare before after)
  := by
  obtain ⟨d, hd, -⟩ := Comparison.of_eq_ok h
  rw [compare, ofExcept_ok_bind _ hd]
  apply (prints_emit _ _).acceptsSettings.bind
  intro _
  split
  · exact (prints_emit_pure _ _ _).acceptsSettings
  · exact (prints_emit_pure _ _ _).acceptsSettings

theorem acceptsSettings_runPromote (c : Config) (report : Path) (baseline : Option Path) :
  AcceptsSettings (runPromote c report baseline)
  := by
  apply (acceptsSettings_during (Report.isTolerant_load report) none).bind
  intro r
  have hpromote : AcceptsSettings (do
      let b ← lift (Baseline.promote (baseline.getD c.gate.baseline) r)
      printLines [Messages.newBaseline (baseline.getD c.gate.baseline) b]
      return .success : Session (StateM Tree) Ending) := by
    apply (acceptsSettings_during (Baseline.isTolerant_promote _ r) none).bind
    exact fun _ => (prints_emit_pure _ _ _).acceptsSettings
  apply (acceptsSettings_during (IsTolerant.tryCatch fun _ => IsTolerant.pure _) none).bind
  intro previous
  cases previous with
  | none => exact hpromote
  | some b => exact (prints_emit _ _).acceptsSettings.bind fun _ => hpromote

/-- Targets with other quotas have the same codes. -/
theorem repeated?_map_quota (quota : Nat) (ts : List Target) (seen : List String) :
  Target.repeated? seen (ts.map fun t => { t with quota }) = Target.repeated? seen ts
  := by
  induction ts generalizing seen with
  | nil => rfl
  | cons t ts ih => simp only [List.map_cons, Target.repeated?, ih]

/-- Targets of the settings, perhaps with another quota, are as good as they were. -/
theorem exists_chooseTargets (h : Target.faultOf? c.golden.targets = none) (quota : Option Nat) :
  ∃ targets, chooseTargets c none quota = .ok targets ∧ Target.faultOf? targets = none
  := by
  cases quota with
  | none => exact ⟨_, rfl, h⟩
  | some quota =>
    refine ⟨_, rfl, ?_⟩
    rw [Target.faultOf?, List.isEmpty_map, repeated?_map_quota]
    exact h

theorem exists_curator {targets : List Target} (h : Target.faultOf? targets = none)
    (ranking : Ranking) :
  ∃ curator, Curator.of targets ranking = .ok curator
  := by
  rw [Curator.of]
  split
  · next e he => simp [h] at he
  · exact ⟨_, rfl⟩

theorem acceptsSettings_runCurate (h : Target.faultOf? c.golden.targets = none) (corpus : Path)
    (quota : Option Nat) (ranking : Option Ranking) (output : Path) :
  AcceptsSettings (runCurate c corpus none quota ranking output)
  := by
  obtain ⟨targets, hchoose, htargets⟩ := exists_chooseTargets h quota
  obtain ⟨curator, hcurator⟩ := exists_curator htargets (ranking.getD c.golden.ranking)
  rw [runCurate, ofExcept_ok_bind _ hchoose, ofExcept_ok_bind _ hcurator]
  apply (acceptsSettings_loadLabeled c corpus).bind
  intro labeled
  apply (acceptsSettings_save output _).bind
  exact fun _ => (prints_emit_pure _ _ _).acceptsSettings

theorem acceptsSettings_runSample {seed : Option Nat} {sampler : Sampler}
    (h : Sampler.of c.sampling.fraction (seed.getD c.sampling.seed) c.sampling.allocation
      = .ok sampler) (now : Time.Instant) (corpus : Path) (output : Option Path) :
  AcceptsSettings (runSample c now corpus none seed output)
  := by
  rw [runSample, Option.getD_none, ofExcept_ok_bind _ h]
  apply (acceptsSettings_loadLabeled c corpus).bind
  intro labeled
  apply (acceptsSettings_save _ _).bind
  exact fun _ => (prints_emit_pure _ _ _).acceptsSettings

/-- A command that draws no sample, and takes its codes from settings whose targets are not
refused, does not fail for the settings. -/
theorem acceptsSettings_runWith (h : Target.faultOf? c.golden.targets = none) (now : Time.Instant)
    {command : Command} (hcommand : command.TakesSettings) (hsample : ¬ command.DrawsSample) :
  AcceptsSettings (runWith c now command)
  := by
  cases command with
  | label corpus output =>
    apply (acceptsSettings_loadLabeled c corpus).bind
    intro labeled
    apply (acceptsSettings_during (Storage.isTolerant_writeAtomic output _) _).bind
    exact fun _ => (prints_emit_pure _ _ _).acceptsSettings
  | report corpus output format least =>
    apply (acceptsSettings_loadLabeled c corpus).bind
    intro labeled
    apply (acceptsSettings_saveIfAsked output _).bind
    exact fun _ => ((prints_emit _ _).bind fun _ => prints_judge _ _).acceptsSettings
  | compareReports before after policy =>
    apply (acceptsSettings_during (Report.isTolerant_load before) none).bind
    intro _
    apply (acceptsSettings_during (Report.isTolerant_load after) none).bind
    intro _
    apply (prints_emit _ _).acceptsSettings.bind
    exact fun _ => acceptsSettings_compare rfl
  | compareRecords before after =>
    apply (acceptsSettings_loadCorpus c before).bind
    intro _
    apply (acceptsSettings_loadCorpus c after).bind
    exact fun _ => acceptsSettings_compare rfl
  | promote source place => exact acceptsSettings_runPromote c source place
  | sample corpus fraction seed output => exact absurd trivial hsample
  | summarizeReviews folder =>
    apply (acceptsSettings_during (ReviewSummary.isTolerant_ofDirectory _ now) none).bind
    exact fun _ => (prints_emit_pure _ _ _).acceptsSettings
  | guide => exact (prints_emit_pure _ _ _).acceptsSettings
  | curate corpus codes quota ranking output =>
    obtain rfl : codes = none := hcommand
    exact acceptsSettings_runCurate h corpus quota ranking output
  | localize corpus formula format =>
    apply (acceptsSettings_loadLabeled c corpus).bind
    intro labeled
    apply (acceptsSettings_ofExcept_computation _).bind
    exact fun _ => (prints_emit_pure _ _ _).acceptsSettings
  | insights corpus output =>
    apply (acceptsSettings_loadLabeled c corpus).bind
    intro labeled
    apply (acceptsSettings_saveIfAsked output _).bind
    exact fun _ => (prints_emit_pure _ _ _).acceptsSettings

end Command

/-! ### Settings that are read -/

namespace Config

variable {p : Path} {t : Tree} {c : Config}

theorem onTree_load (p : Path) (t : Tree) :
  onTree (load p) t =
    match t.read p with
    | .ok bytes => (ofBytes p bytes, t)
    | .error e => (.error (.input p (.file e)), t)
  := by
  rw [load, onTree_bind, onTree_located_read]
  cases t.read p <;> rfl

/-- Settings that are read are those of the bytes at the path. -/
theorem exists_read_of_load (h : onTree (load p) t = (.ok c, t)) :
  ∃ bytes, t.read p = .ok bytes ∧ ofBytes p bytes = .ok c
  := by
  rw [onTree_load] at h
  cases hread : t.read p with
  | error e => simp [hread] at h
  | ok bytes =>
    rw [hread] at h
    exact ⟨bytes, rfl, congrArg Prod.fst h⟩

/-- A file with settings is there, so that the defaults are not taken. -/
theorem loadOrDefault_of_load (h : onTree (load p) t = (.ok c, t)) :
  onTree (loadOrDefault p) t = (.ok c, t)
  := by
  obtain ⟨bytes, hread, -⟩ := exists_read_of_load h
  have hpresent : t.isPresent p = true := by
    obtain ⟨found, hfound, -⟩ := bind_eq_ok_iff.mp hread
    rw [Tree.isPresent, hfound]
  have hloaded : onTree (loadOrDefault p) t
      = onTree (if t.isPresent p then load p else pure default) t := rfl
  rw [hloaded, if_pos hpresent, h]

theorem faultOf?_of_load (h : onTree (load p) t = (.ok c, t)) :
  c.faultOf? = none
  := by
  obtain ⟨bytes, -, hbytes⟩ := exists_read_of_load h
  rw [ofBytes] at hbytes
  split at hbytes
  · simp at hbytes
  · split at hbytes
    · simp at hbytes
    · split at hbytes
      · simp at hbytes
      · next c' _ _ hfault =>
        obtain rfl : c' = c := Except.ok.inj hbytes
        exact hfault

/-- The targets of settings that are not refused are not refused either, and their fraction is
above zero and at most one. -/
theorem faultOf?_eq_none_iff :
  c.faultOf? = none
    ↔ (0 ≤ c.skipLimit && c.skipLimit ≤ 1) = true
      ∧ (c.sampling.fraction > 0 && c.sampling.fraction ≤ 1) = true
      ∧ Target.faultOf? c.golden.targets = none
  := by
  rw [faultOf?]
  generalize (decide (0 ≤ c.skipLimit) && decide (c.skipLimit ≤ 1)) = skipLimit
  generalize (decide (c.sampling.fraction > 0) && decide (c.sampling.fraction ≤ 1)) = fraction
  cases skipLimit <;> cases fraction <;> simp

end Config

/-- A fraction above zero and at most one is refused only if it is none in millionths. -/
theorem Sampler.of_eq {fraction : Float} (h : (fraction > 0 && fraction ≤ 1) = true) (seed : Nat)
    (allocation : Allocation) :
  of fraction seed allocation
    = if millionthsOf fraction = 0 then .error (.fractionResolution fraction)
      else .ok ⟨fraction, millionthsOf fraction, seed, allocation⟩
  := by
  rw [of, h]
  rfl

namespace Invocation

open Session (runFrom runOnTree)

/-- A run does with settings that it can read what its command does with them. -/
theorem runOnTree_run {i : Invocation} {t : Tree} {c : Config}
    (h : onTree (Config.load i.config) t = (.ok c, t)) (now : Time.Instant) :
  runOnTree (i.run now) t = runFrom (Command.runWith c now i.command) .empty t
  := by
  rw [← Session.runFrom_empty, run, Session.runFrom_bind, Command.loadConfig,
    Session.runFrom_during, Config.loadOrDefault_of_load h]
  rfl

/-- Settings that are accepted make a rule set and a curator, and a sampler unless their
fraction is none in millionths.  A command that takes its fraction and its codes from them
fails for the settings exactly if it draws a sample and there is no sampler. -/
theorem run_of_accepted {i : Invocation} {t : Tree} {c : Config}
    (h : onTree (Config.load i.config) t = (.ok c, t)) :
  RuleSet.ofRules c.rules.rules = .ok c.rules
    ∧ (∃ curator, Curator.of c.golden.targets c.golden.ranking = .ok curator)
    ∧ ((∃ sampler, Sampler.of c.sampling.fraction c.sampling.seed c.sampling.allocation
        = .ok sampler) ↔ Sampler.millionthsOf c.sampling.fraction ≠ 0)
    ∧ (i.command.TakesSettings → ∀ now, (∃ activity e,
        (runOnTree (i.run now) t).1.1 = .error ⟨activity, .configuration e⟩)
      ↔ i.command.DrawsSample ∧ Sampler.millionthsOf c.sampling.fraction = 0)
  := by
  obtain ⟨-, hfraction, htargets⟩ := Config.faultOf?_eq_none_iff.mp (Config.faultOf?_of_load h)
  refine ⟨RuleSet.ofRules_eq_ok_iff.mpr rfl, Command.exists_curator htargets _, ?sampler, ?run⟩
  case sampler =>
    rw [Sampler.of_eq hfraction]
    split <;> simp_all
  case run =>
    intro hcommand now
    rw [runOnTree_run h]
    have hspares (haccepts : Session.AcceptsSettings (Command.runWith c now i.command)) :
        ¬ ∃ activity e, (runFrom (Command.runWith c now i.command) .empty t).1.1
          = .error ⟨activity, .configuration e⟩ := by
      rintro ⟨activity, e, he⟩
      exact haccepts .empty t _ he e rfl
    by_cases hsample : i.command.DrawsSample
    · cases hi : i.command with
      | sample corpus fraction seed output =>
        rw [hi] at hcommand hspares
        obtain rfl : fraction = none := hcommand
        have hof := Sampler.of_eq hfraction (seed.getD c.sampling.seed) c.sampling.allocation
        by_cases hzero : Sampler.millionthsOf c.sampling.fraction = 0
        · rw [if_pos hzero] at hof
          simp only [hzero, and_true, Command.DrawsSample, iff_true]
          refine ⟨none, .fractionResolution c.sampling.fraction, ?_⟩
          rw [Command.runWith, Command.runSample, Option.getD_none, hof]
          rfl
        · rw [if_neg hzero] at hof
          simp only [hzero, and_false, iff_false]
          exact hspares (Command.acceptsSettings_runSample hof now corpus output)
      | _ => simp [hi, Command.DrawsSample] at hsample
    · simp only [hsample, false_and, iff_false]
      exact hspares (Command.acceptsSettings_runWith htargets now hcommand hsample)

/-- A file of settings with a fraction of a tenth of a millionth. -/
def tinySettings : Tree :=
  ⟨[(["criba.toml"], .file (Text.encode "[sampling]\nfraction = 1e-7\n"))]⟩

/-- The settings of the file. -/
def tinyFraction : Config :=
  { sampling := { fraction := 1e-7 } }

/-- The command line `sample rows.jsonl`. -/
def sampleRows : Invocation :=
  ⟨.sample ⟨"rows.jsonl"⟩ none none none, Config.defaultPath⟩

private theorem load_tinySettings :
  onTree (Config.load Config.defaultPath) tinySettings = (.ok tinyFraction, tinySettings)
  := by
  decide +kernel

theorem run_of_accepted_tinySettings :
  ∃ activity e, (runOnTree (sampleRows.run ⟨⟨2024, 1, 1⟩, 0, 0, 0, 0⟩) tinySettings).1.1
    = .error ⟨activity, .configuration e⟩
  := by
  have hnone : Sampler.millionthsOf tinyFraction.sampling.fraction = 0 := by
    decide +kernel
  obtain ⟨-, -, -, hrun⟩ := run_of_accepted (i := sampleRows) load_tinySettings
  exact (hrun rfl _).mpr ⟨trivial, hnone⟩

/-- The settings are accepted, and yet make no sampler. -/
theorem accepted_makes_no_sampler :
  onTree (Config.load Config.defaultPath) tinySettings = (.ok tinyFraction, tinySettings)
    ∧ Sampler.of tinyFraction.sampling.fraction tinyFraction.sampling.seed
        tinyFraction.sampling.allocation
      = .error (.fractionResolution tinyFraction.sampling.fraction)
  := by
  refine ⟨load_tinySettings, ?_⟩
  decide +kernel

end Invocation

end CorpusAudit
