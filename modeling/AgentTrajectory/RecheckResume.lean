import AgentTrajectory.RecheckRepairs
import AgentTrajectory.DetectedEvents

/-! Resuming `recheck_user_corrections_pool.py`. An execution asks about the rows of the pool whose
correction is not named by a row of the output file, and appends what it finds. The file is the list
of its rows. -/
namespace AgentTrajectory.RecheckPool
open PyText PyDict PyJson PyValue RouteDay CorrectionCensus SessionCorrections RuntimeLane

variable {row : PoolRow}

def seedKey : PyStr := py "seed_corrector_msg_id"

structure PoolRow where
  fields : Answer
  id : PyStr
  corrector : getNone fields (py "corrector_msg_id") = .str id
  fresh : get? fields seedKey = none

variable {τ : Type}

/-- A pool without repeated corrections, whose records can be looked up. -/
structure Pool (env : RouteEnv) (log : EventLog τ) (rawByC : Dict PyStr Answer) where
  rows : List PoolRow
  distinct : (rows.map PoolRow.id).Nodup
  found : ∀ row ∈ rows, (seedOf env log rawByC row.fields).isOk = true

/-- A parsed object. -/
abbrev Reply := { a : Answer // (keys a).Nodup }

structure Entry where
  source : PyStr
  failed : Bool
  row : Answer
  deriving DecidableEq

def Entry.mark (x : Entry) : Json := getNone x.row seedKey

structure Execution where
  limit : ℤ
  replies : PoolRow → Except PyStr Reply
  order : List Entry → List Entry
  order_perm : ∀ new, (order new).Perm new

/-- `xs[:limit]` where there is a limit. -/
def limited {α : Type} (limit : ℤ) (xs : List α) : List α :=
  if limit = 0 then xs else if 0 < limit then xs.take limit.toNat else
    xs.take (xs.length - limit.natAbs)

section Main
variable {env : RouteEnv} {log : EventLog τ} {rawByC : Dict PyStr Answer}
    (pool : Pool env log rawByC)

/-- `r.get("seed_corrector_msg_id")` for the rows of the file. -/
def done (file : List Entry) : List Json := file.map Entry.mark

def pending (file : List Entry) : List PoolRow :=
  pool.rows.filter fun row => getNone row.fields (py "corrector_msg_id") ∉ done file

def due (file : List Entry) (e : Execution) : List PoolRow := limited e.limit (pending pool file)

variable (env log rawByC) in
def recheck (e : Execution) (row : PoolRow) : Except PyError Entry :=
  (recheckOne env log rawByC row.fields ((e.replies row).map Subtype.val)).map fun out =>
    ⟨row.id, (get? log.byId row.id).isSome && !(e.replies row).isOk, out⟩

/-- `main` up to its append: the new file. A value that cannot be hashed stops it. -/
def main (file : List Entry) (e : Execution) : Except PyError (List Entry) :=
  if (done file).all hashable then
    ((due pool file e).mapM (recheck env log rawByC e)).map fun new => file ++ e.order new
  else .error .typeError

/-- The file after an execution. An exception leaves it as it was. -/
def after (file : List Entry) (e : Execution) : List Entry := (main pool file e).toOption.getD file

def runs (es : List Execution) : List Entry := es.foldl (after pool) []

def Once (file : List Entry) : Prop := ((file.filter fun x => !x.failed).map Entry.source).Nodup

structure Complete (file : List Entry) (e : Execution) : Prop where
  ok : (main pool file e).isOk = true
  all : due pool file e = pending pool file
  replied : ∀ row ∈ pending pool file, (get? log.byId row.id).isSome → (e.replies row).isOk = true

def Allowed (A : Set Reply) (e : Execution) : Prop := ∀ row a, e.replies row = .ok a → a ∈ A

/-- The executions with replies from a set. -/
def Idempotent (A : Set Reply) : Prop :=
  ∀ es : List Execution, (∀ e ∈ es, Allowed A e) → Once (runs pool es) ∧
    ∀ e e', Allowed A e → Allowed A e' → Complete pool (runs pool es) e →
      after pool (after pool (runs pool es) e) e' = after pool (runs pool es) e

variable (env log) in
def Checked (seed : Seed τ) (a : Answer) : Prop :=
  (repairPick env log seed.raw (lockCorrectorPick a seed.focus.corrector) >>=
    validatePick env log).isOk = true

def NamesOnly (row : PoolRow) (a : Answer) :
    Prop := ∀ v, get? a seedKey = some v → v = .str row.id ∨ hashable v = false

/-- Every correction of the pool is in the log, and no reply takes the place of its name. -/
def Resumable (A : Set Reply) : Prop :=
  ∀ row ∈ pool.rows, ∃ seed, seedOf env log rawByC row.fields = .ok (some seed) ∧
    ∀ a ∈ A, Checked env log seed a.1 → NamesOnly row a.1

end Main

section Rows
variable {env : RouteEnv} {log : EventLog τ} {rawByC : Dict PyStr Answer}

def SameSeed (r r' : Answer) :
    Prop := get? r' seedKey = get? r seedKey ∧ ((keys r).Nodup → (keys r').Nodup)

lemma SameSeed.refl (r : Answer) : SameSeed r r := ⟨rfl, id⟩

lemma sameSeed_of_ok {r r' : Answer} (h : (.ok r : Except PyError Answer) = .ok r') :
    SameSeed r r' :=
  Except.ok.inj h ▸ SameSeed.refl r

lemma SameSeed.trans {r r' r'' : Answer} (h : SameSeed r r') (h' : SameSeed r' r'') :
    SameSeed r r'' :=
  ⟨h'.1.trans h.1, fun hr => h'.2 (h.2 hr)⟩

lemma sameSeed_pair (r : Answer) {i j : PyStr} (hi : seedKey ≠ i) (hj : seedKey ≠ j) (v w : Json) :
    SameSeed r (update r [(i, v), (j, w)]) :=
  ⟨get?_update_of_not_mem (by simp [keys, hi, hj]), fun hr => keys_nodup_update hr _⟩

lemma sameSeed_lock (r : Answer) (focus : PyStr) : SameSeed r (lockCorrectorPick r focus) := by
  rw [lockCorrectorPick]
  split_ifs
  · exact SameSeed.refl r
  · exact sameSeed_pair r (by simp [seedKey]) (by simp [seedKey]) _ _

lemma sameSeed_withAnchor (r : Answer) (a : Event τ) (quote : PyStr) :
    SameSeed r (withAnchor r a quote) := by
  have hfrom : SameSeed r (if getNone r (py "bot_error_msg_id") = .str a.msgId then r
      else PyDict.set r (py "bot_error_repaired_from") (idAt r "bot_error_msg_id")) := by
    split_ifs
    · exact SameSeed.refl r
    · exact ⟨get?_set_ne r _ (by decide), fun hr => keys_nodup_set hr _ _⟩
  exact hfrom.trans (sameSeed_pair _ (by simp [seedKey]) (by simp [seedKey]) _ _)

lemma sameSeed_found {α : Type} {r r' : Answer} {found : Except PyError (Option α)}
    {next : Option α → Except PyError Answer}
    (h : found >>= next = .ok r') (hnone : next none = .ok r)
    (hsome : ∀ a, next (some a) = .ok r' → SameSeed r r') :
    SameSeed r r' := by
  obtain ⟨o, -, h⟩ := bind_eq_ok.mp h
  cases o with
  | none => exact sameSeed_of_ok (hnone.symm.trans h)
  | some a => exact hsome a h

lemma sameSeed_repairParent {r r' : Answer} (h : repairParentBotErrorPick env log r = .ok r') :
    SameSeed r r' := by
  rw [repairParentBotErrorPick] at h
  split_ifs at h
  · exact sameSeed_of_ok h
  · refine sameSeed_found h rfl fun c h => ?_
    refine sameSeed_found h rfl fun b h => ?_
    refine sameSeed_found h rfl fun t0 h => ?_
    obtain ⟨quote, -, h⟩ := bind_eq_ok.mp h
    dsimp only at h
    split_ifs at h
    · exact sameSeed_of_ok h
    · split at h
      · exact sameSeed_of_ok h
      · obtain rfl := Except.ok.inj h
        exact sameSeed_pair r (by simp [seedKey]) (by simp [seedKey]) _ _

lemma sameSeed_repairKnown {raw r r' : Answer}
    (h : repairKnownBotErrorPick env log raw r = .ok r') : SameSeed r r' := by
  rw [repairKnownBotErrorPick] at h
  split_ifs at h
  · exact sameSeed_of_ok h
  · obtain ⟨quote, -, h⟩ := bind_eq_ok.mp h
    refine sameSeed_found h rfl fun a h => ?_
    refine sameSeed_found h rfl fun c h => ?_
    dsimp only at h
    split_ifs at h
    · obtain rfl := Except.ok.inj h
      exact sameSeed_withAnchor r a quote
    · exact sameSeed_of_ok h

lemma sameSeed_repairT0 {r r' : Answer} (h : repairT0Pick env log r = .ok r') : SameSeed r r' := by
  rw [repairT0Pick] at h
  split_ifs at h
  · exact sameSeed_of_ok h
  · refine sameSeed_found h rfl fun t0 h => ?_
    refine sameSeed_found h rfl fun b h => ?_
    dsimp only at h
    split at h
    · exact sameSeed_of_ok h
    · obtain rfl := Except.ok.inj h
      exact sameSeed_pair r (by simp [seedKey]) (by simp [seedKey]) _ _

lemma sameSeed_repairPick {raw r r' : Answer} (h : repairPick env log raw r = .ok r') :
    SameSeed r r' := by
  obtain ⟨r1, h1, h⟩ := bind_eq_ok.mp h
  obtain ⟨r2, h2, h3⟩ := bind_eq_ok.mp h
  exact (sameSeed_repairParent h1).trans ((sameSeed_repairKnown h2).trans (sameSeed_repairT0 h3))

lemma idAt_corrector (row : PoolRow) : idAt row.fields "corrector_msg_id" = .str row.id := by
  rw [idAt, row.corrector, orEmpty]
  split_ifs with h
  · rfl
  · rw [show row.id = [] by simpa [Json.truthy] using h]

lemma seedOf_event {found : Option (Seed τ)} (h : seedOf env log rawByC row.fields = .ok found) :
    get? log.byId row.id = found.map Seed.event := by
  rw [seedOf, idAt_corrector] at h
  obtain ⟨raw, -, h⟩ := bind_eq_ok.mp h
  obtain ⟨event, hevent, h⟩ := bind_eq_ok.mp h
  have hget : get? log.byId row.id = event := Except.ok.inj hevent
  cases event with
  | none =>
    obtain rfl := Except.ok.inj h
    exact hget
  | some event =>
    obtain ⟨focus, -, h⟩ := bind_eq_ok.mp h
    obtain rfl := Except.ok.inj h
    exact hget

lemma event_msgId {seed : Seed τ} (h : seedOf env log rawByC row.fields = .ok (some seed)) :
    seed.event.msgId = row.id := ((log.get?_byId).mp (seedOf_event h)).2

lemma getNone_update_row (row : PoolRow) {ps : Answer} (h : seedKey ∉ keys ps) :
    getNone (update row.fields ps) seedKey = .null := by
  rw [getNone, get?_update_of_not_mem h, row.fresh]
  rfl

lemma recheckOne_missing (h : seedOf env log rawByC row.fields = .ok none)
    (answer : Except PyStr Answer) :
    ∃ out, recheckOne env log rawByC row.fields answer = .ok out ∧ getNone out seedKey = .null := by
  rw [recheckOne, h]
  exact ⟨_, rfl, getNone_update_row row (by decide)⟩

lemma recheckOne_error {seed : Seed τ}
    (h : seedOf env log rawByC row.fields = .ok (some seed)) (message : PyStr) :
    ∃ out, recheckOne env log rawByC row.fields (.error message) = .ok out ∧
    getNone out seedKey = .null := by
  rw [recheckOne, h]
  exact ⟨_, rfl, getNone_update_row row (by simp [keys, seedKey])⟩

lemma recheckOne_reply {seed : Seed τ}
    (h : seedOf env log rawByC row.fields = .ok (some seed)) (a : Reply) {out : Answer}
    (hout : recheckOne env log rawByC row.fields (.ok a.1) = .ok out) :
    Checked env log seed a.1 ∧ getNone out seedKey = (get? a.1 seedKey).getD (.str row.id) := by
  rw [recheckOne] at hout
  obtain ⟨found, hfound, hout⟩ := bind_eq_ok.mp hout
  obtain rfl := Except.ok.inj (h.symm.trans hfound)
  obtain ⟨parsed, hparsed, hout⟩ := bind_eq_ok.mp hout
  obtain ⟨⟨ok, reason⟩, hcheck, hout⟩ := bind_eq_ok.mp hout
  obtain rfl := Except.ok.inj hout
  have hsame := (sameSeed_lock a.1 seed.focus.corrector).trans (sameSeed_repairPick hparsed)
  refine ⟨isOk_iff.mpr ⟨_, bind_eq_ok.mpr ⟨parsed, hparsed, hcheck⟩⟩, ?_⟩
  rw [getNone, update_append, get?_update_of_not_mem (by simp [keys, seedKey]),
    get?_update (hsame.2 a.2), hsame.1, event_msgId h]
  cases get? a.1 seedKey <;> rfl

lemma recheckOne_of_checked {seed : Seed τ}
    (h : seedOf env log rawByC row.fields = .ok (some seed)) {a : Answer}
    (hcheck : Checked env log seed a) : ∃ out,
    recheckOne env log rawByC row.fields (.ok a) = .ok out := by
  obtain ⟨⟨ok, reason⟩, hbind⟩ := isOk_iff.mp hcheck
  obtain ⟨parsed, hparsed, hcheck⟩ := bind_eq_ok.mp hbind
  exact ⟨_, bind_eq_ok.mpr ⟨_, h,
    bind_eq_ok.mpr ⟨parsed, hparsed, bind_eq_ok.mpr ⟨_, hcheck, rfl⟩⟩⟩⟩

end Rows

section Executions
variable {env : RouteEnv} {log : EventLog τ} {rawByC : Dict PyStr Answer}
    {pool : Pool env log rawByC}
  {file file' : List Entry} {e : Execution} {A : Set Reply}

lemma limited_sublist {α : Type} (limit : ℤ) (xs : List α) : (limited limit xs).Sublist xs := by
  rw [limited]
  split_ifs
  · exact List.Sublist.refl xs
  · exact List.take_sublist _ _
  · exact List.take_sublist _ _

lemma mem_pending :
    row ∈ pending pool file ↔ row ∈ pool.rows ∧ .str row.id ∉ done file := by
  rw [pending, List.mem_filter, row.corrector]
  simp

lemma due_sublist (file : List Entry) (e : Execution) :
    (due pool file e).Sublist (pending pool file) := limited_sublist _ _

lemma main_eq_ok (h : main pool file e = .ok file') :
    (∀ v ∈ done file, hashable v = true) ∧ ∃ new, file' = file ++ e.order new ∧
      List.Forall₂ (fun row x => recheck env log rawByC e row = .ok x) (due pool file e) new := by
  rw [main] at h
  split_ifs at h with hhash
  obtain ⟨new, hnew, rfl⟩ := map_eq_ok.mp h
  exact ⟨List.all_eq_true.mp hhash, new, rfl, mapM_eq_ok.mp hnew⟩

lemma recheck_eq_ok {x : Entry} (h : recheck env log rawByC e row = .ok x) :
    ∃ out, recheckOne env log rawByC row.fields ((e.replies row).map Subtype.val) = .ok out ∧
      x = ⟨row.id, (get? log.byId row.id).isSome && !(e.replies row).isOk, out⟩ := by
  obtain ⟨out, hout, rfl⟩ := map_eq_ok.mp h
  exact ⟨out, hout, rfl⟩

lemma after_cases (pool : Pool env log rawByC) (file : List Entry) (e : Execution) :
    after pool file e = file ∨ main pool file e = .ok (after pool file e) := by
  rw [after]
  cases main pool file e with
  | error x => exact .inl rfl
  | ok file' => exact .inr rfl

lemma runs_concat (es : List Execution) (e : Execution) :
    runs pool (es ++ [e]) = after pool (runs pool es) e := by
  rw [runs, List.foldl_append]
  rfl

def Marked (file : List Entry) :
    Prop := ∀ x ∈ file, x.failed = false → x.mark = .str x.source ∨ hashable x.mark = false

lemma marked_of_recheck (hres : Resumable pool A) (hallowed : Allowed A e)
    (hrow : row ∈ pool.rows) {x : Entry}
    (h : recheck env log rawByC e row = .ok x) (hx : x.failed = false) : x.mark = .str x.source ∨
    hashable x.mark = false := by
  obtain ⟨out, hout, rfl⟩ := recheck_eq_ok h
  obtain ⟨seed, hseed, hnames⟩ := hres row hrow
  have hinlog : (get? log.byId row.id).isSome = true := by rw [seedOf_event hseed]; rfl
  cases hreply : e.replies row with
  | error message =>
    rw [hreply, hinlog] at hx
    exact absurd hx (by simp [Except.isOk, Except.toBool])
  | ok a =>
    rw [hreply] at hout
    obtain ⟨hcheck, hmark⟩ := recheckOne_reply hseed a hout
    have hnames := hnames a (hallowed row a hreply) hcheck
    change getNone out seedKey = .str row.id ∨ hashable (getNone out seedKey) = false
    rw [hmark]
    cases hget : get? a.1 seedKey with
    | none => exact .inl rfl
    | some v => exact hnames v hget

lemma sources_eq {rows : List PoolRow} {new : List Entry}
    (h : List.Forall₂ (fun row x => recheck env log rawByC e row = .ok x) rows new) :
    new.map Entry.source = rows.map PoolRow.id := by
  induction h with
  | nil => rfl
  | cons hx _ ih =>
    obtain ⟨out, -, rfl⟩ := recheck_eq_ok hx
    rw [List.map_cons, List.map_cons, ih]

lemma invariant_main (hres : Resumable pool A) (hallowed : Allowed A e)
    (hmarked : Marked file) (honce : Once file)
    (h : main pool file e = .ok file') : Marked file' ∧ Once file' := by
  obtain ⟨hhash, new, rfl, hnew⟩ := main_eq_ok h
  have hperm := e.order_perm new
  have hrows := (due_sublist file e).trans (List.filter_sublist (p := _) (l := pool.rows))
  constructor
  · intro x hx hfailed
    rcases List.mem_append.mp hx with hx | hx
    · exact hmarked x hx hfailed
    · obtain ⟨row, hrow, hrecheck⟩ := RelatedLists.forall₂_mem_right hnew (hperm.mem_iff.mp hx)
      exact marked_of_recheck hres hallowed (hrows.subset hrow) hrecheck hfailed
  · rw [Once, List.filter_append, List.map_append]
    refine List.nodup_append.mpr ⟨honce, ?_, ?_⟩
    · have hnodup : (new.map Entry.source).Nodup := by
        rw [sources_eq hnew]
        exact (hrows.map PoolRow.id).nodup pool.distinct
      have hsub : ((new.filter fun x => !x.failed).map Entry.source).Nodup :=
        (List.filter_sublist.map _).nodup hnodup
      exact ((hperm.filter _).map _).nodup_iff.mpr hsub
    · rintro id hold _ hnewid rfl
      obtain ⟨x, hx, rfl⟩ := List.mem_map.mp hold
      obtain ⟨y, hy, hsource⟩ := List.mem_map.mp hnewid
      obtain ⟨hx, hxf⟩ := List.mem_filter.mp hx
      have hy := hperm.mem_iff.mp (List.mem_filter.mp hy).1
      obtain ⟨row, hrow, hrecheck⟩ := RelatedLists.forall₂_mem_right hnew hy
      obtain ⟨out, -, rfl⟩ := recheck_eq_ok hrecheck
      have hdone := (mem_pending.mp ((due_sublist file e).subset hrow)).2
      have hmem : x.mark ∈ done file := List.mem_map_of_mem hx
      rcases hmarked x hx (by simpa using hxf) with hmark | hunhash
      · rw [hmark, ← hsource] at hmem
        exact hdone hmem
      · rw [hhash _ hmem] at hunhash
        exact absurd hunhash (by decide)

lemma invariant_runs (hres : Resumable pool A) {es : List Execution} (hes : ∀ e ∈ es, Allowed A e) :
    Marked (runs pool es) ∧ Once (runs pool es) := by
  induction es using List.reverseRecOn with
  | nil => exact ⟨by simp [Marked, runs], by simp [Once, runs]⟩
  | append_singleton es e ih =>
    have hinv := ih fun e' he' => hes e' (List.mem_append_left _ he')
    rw [runs_concat]
    rcases after_cases pool (runs pool es) e with hsame | hok
    · rw [hsame]
      exact hinv
    · exact invariant_main hres (hes e (by simp)) hinv.1 hinv.2 hok

lemma after_complete (hres : Resumable pool A) (hallowed : Allowed A e)
    (hcomplete : Complete pool file e) (e' : Execution) :
    after pool (after pool file e) e' = after pool file e := by
  obtain ⟨file', hmain⟩ := isOk_iff.mp hcomplete.ok
  have hafter : after pool file e = file' := by rw [after, hmain]; rfl
  rw [hafter]
  rcases after_cases pool file' e' with hsame | hok
  · exact hsame
  obtain ⟨hhash, new', hfile, hnew'⟩ := main_eq_ok hok
  obtain ⟨-, new, rfl, hnew⟩ := main_eq_ok hmain
  have hnothing : pending pool (file ++ e.order new) = [] := by
    refine List.eq_nil_iff_forall_not_mem.mpr fun row hrow => ?_
    obtain ⟨hpool, hdone⟩ := mem_pending.mp hrow
    have hpending : row ∈ pending pool file :=
      mem_pending.mpr ⟨hpool, fun h =>
        hdone (by rw [done, List.map_append]; exact List.mem_append_left _ h)⟩
    obtain ⟨x, hx, hrecheck⟩ := RelatedLists.forall₂_mem_left hnew (hcomplete.all.symm ▸ hpending)
    have hmem : x.mark ∈ done (file ++ e.order new) :=
      List.mem_map_of_mem (List.mem_append_right _ ((e.order_perm new).mem_iff.mpr hx))
    have hfailed : x.failed = false := by
      obtain ⟨out, -, rfl⟩ := recheck_eq_ok hrecheck
      cases hin : (get? log.byId row.id).isSome with
      | false => rfl
      | true => simp [hcomplete.replied row hpending hin]
    have hsource : x.source = row.id := by
      obtain ⟨out, -, rfl⟩ := recheck_eq_ok hrecheck
      rfl
    rcases marked_of_recheck hres hallowed hpool hrecheck hfailed with hmark | hunhash
    · rw [hmark, hsource] at hmem
      exact hdone hmem
    · rw [hhash _ hmem] at hunhash
      exact absurd hunhash (by decide)
  have hdue : due pool (file ++ e.order new) e' = [] :=
    List.sublist_nil.mp (hnothing ▸ due_sublist _ e')
  rw [hdue, List.forall₂_nil_left_iff] at hnew'
  rw [hnew', (e'.order_perm []).eq_nil, List.append_nil] at hfile
  exact hfile

lemma after_of_unmarked (hrow : row ∈ pool.rows) (hlimit : e.limit = 0)
    (hok : ∀ r ∈ pool.rows, ∃ x, recheck env log rawByC e r = .ok x ∧
      hashable x.mark = true ∧ x.mark ≠ .str row.id)
    (hfailed : ∀ x, recheck env log rawByC e row = .ok x → x.failed = false) {file : List Entry}
    (hfile : ∀ x ∈ file, hashable x.mark = true ∧ x.mark ≠ .str row.id) :
    ∃ new, after pool file e = file ++ new ∧
    (∀ x ∈ new, hashable x.mark = true ∧ x.mark ≠ .str row.id) ∧
      ∃ x ∈ new, x.source = row.id ∧ x.failed = false := by
  have hdue : due pool file e = pending pool file := by rw [due, limited, if_pos hlimit]
  have hpending : row ∈ pending pool file := by
    refine mem_pending.mpr ⟨hrow, fun h => ?_⟩
    obtain ⟨x, hx, hmark⟩ := List.mem_map.mp h
    exact (hfile x hx).2 hmark
  have hall : ((done file).all hashable) = true := by
    refine List.all_eq_true.mpr fun v hv => ?_
    obtain ⟨x, hx, rfl⟩ := List.mem_map.mp hv
    exact (hfile x hx).1
  have hexists : ∃ new, (pending pool file).mapM (recheck env log rawByC e) = .ok new := by
    refine exists_mapM_eq_ok.mpr fun r hr => ?_
    obtain ⟨x, hx, -⟩ := hok r (mem_pending.mp hr).1
    exact isOk_iff.mpr ⟨x, hx⟩
  obtain ⟨new, hnew⟩ := hexists
  have hmain : main pool file e = .ok (file ++ e.order new) := by
    rw [main, if_pos hall, hdue, hnew]
    rfl
  have hafter : after pool file e = file ++ e.order new := by rw [after, hmain]; rfl
  have hrel := mapM_eq_ok.mp hnew
  refine ⟨e.order new, hafter, fun x hx => ?_, ?_⟩
  · obtain ⟨r, hr, hx⟩ := RelatedLists.forall₂_mem_right hrel ((e.order_perm new).mem_iff.mp hx)
    obtain ⟨y, hy, hmark⟩ := hok r (mem_pending.mp hr).1
    obtain rfl := Except.ok.inj (hx.symm.trans hy)
    exact hmark
  · obtain ⟨x, hx, hrecheck⟩ := RelatedLists.forall₂_mem_left hrel hpending
    refine ⟨x, (e.order_perm new).mem_iff.mpr hx, ?_, hfailed x hrecheck⟩
    obtain ⟨out, -, rfl⟩ := recheck_eq_ok hrecheck
    rfl

lemma not_once_of_unmarked (hrow : row ∈ pool.rows) (hlimit : e.limit = 0)
    (hok : ∀ r ∈ pool.rows, ∃ x, recheck env log rawByC e r = .ok x ∧
      hashable x.mark = true ∧ x.mark ≠ .str row.id)
    (hfailed : ∀ x, recheck env log rawByC e row = .ok x → x.failed = false) :
    ¬ Once (runs pool [e, e]) := by
  obtain ⟨first, hfirst, hmarks, x, hx, hxs, hxf⟩ :=
    after_of_unmarked hrow hlimit hok hfailed (List.forall_mem_nil _)
  rw [List.nil_append] at hfirst
  obtain ⟨second, hsecond, -, y, hy, hys, hyf⟩ := after_of_unmarked hrow hlimit hok hfailed hmarks
  have hruns : runs pool [e, e] = first ++ second := by
    change after pool (after pool [] e) e = first ++ second
    rw [hfirst, hsecond]
  intro honce
  rw [hruns, Once, List.filter_append, List.map_append] at honce
  have hleft : row.id ∈ (first.filter fun x => !x.failed).map Entry.source :=
    List.mem_map.mpr ⟨x, List.mem_filter.mpr ⟨hx, by simp [hxf]⟩, hxs⟩
  have hright : row.id ∈ (second.filter fun x => !x.failed).map Entry.source :=
    List.mem_map.mpr ⟨y, List.mem_filter.mpr ⟨hy, by simp [hyf]⟩, hys⟩
  exact (List.nodup_append.mp honce).2.2 _ hleft _ hright rfl

/-- The execution in which the model replies to one row only. -/
def replyTo (id : PyStr) (a : Except PyStr Reply) : Execution where
  limit := 0
  replies row := if row.id = id then a else .error []
  order := fun new => new
  order_perm := fun new => List.Perm.refl new

lemma recheck_replyTo_other (hrow : row ∈ pool.rows) {id : PyStr}
    (hne : row.id ≠ id) (a : Except PyStr Reply) :
    ∃ x, recheck env log rawByC (replyTo id a) row = .ok x ∧ x.mark = .null := by
  have hreply : (replyTo id a).replies row = .error [] := if_neg hne
  obtain ⟨found, hseed⟩ := isOk_iff.mp (pool.found row hrow)
  rw [recheck, hreply]
  cases found with
  | none =>
    obtain ⟨out, hout, hmark⟩ := recheckOne_missing hseed (.error [])
    exact ⟨_, map_eq_ok.mpr ⟨out, hout, rfl⟩, hmark⟩
  | some seed =>
    obtain ⟨out, hout, hmark⟩ := recheckOne_error hseed []
    exact ⟨_, map_eq_ok.mpr ⟨out, hout, rfl⟩, hmark⟩

lemma not_idempotent (hrow : row ∈ pool.rows) {a : Except PyStr Reply}
    (hallowed : ∀ r, a = .ok r → r ∈ A) {x : Entry}
    (hx : recheck env log rawByC (replyTo row.id a) row = .ok x) (hfailed : x.failed = false)
    (hhash : hashable x.mark = true) (hmark : x.mark ≠ .str row.id) : ¬ Idempotent pool A := by
  intro hidem
  have hallow : Allowed A (replyTo row.id a) := by
    intro r b hb
    simp only [replyTo] at hb
    split_ifs at hb
    exact hallowed b hb
  refine not_once_of_unmarked hrow rfl (fun r hr => ?_) (fun y hy => ?_)
    (hidem [replyTo row.id a, replyTo row.id a] (by simp [hallow])).1
  · by_cases hid : r.id = row.id
    · obtain rfl := List.inj_on_of_nodup_map pool.distinct hr hrow hid
      exact ⟨x, hx, hhash, hmark⟩
    · obtain ⟨y, hy, hnull⟩ := recheck_replyTo_other hr hid a
      exact ⟨y, hy, by rw [hnull]; rfl, by rw [hnull]; simp⟩
  · obtain rfl := Except.ok.inj (hx.symm.trans hy)
    exact hfailed

/-- Resuming is idempotent exactly if every correction of the pool is in the log and no reply puts
another name in the place of the row's. -/
theorem resume_idempotent_iff (pool : Pool env log rawByC) (A : Set Reply) :
    Idempotent pool A ↔ Resumable pool A := by
  constructor
  · intro hidem row hrow
    obtain ⟨found, hseed⟩ := isOk_iff.mp (pool.found row hrow)
    have hown (a : Except PyStr Reply) : (replyTo row.id a).replies row = a := if_pos rfl
    cases found with
    | none =>
      obtain ⟨out, hout, hmark⟩ := recheckOne_missing hseed (.error [])
      have hinlog : get? log.byId row.id = none := seedOf_event hseed
      have hx : recheck env log rawByC (replyTo row.id (.error [])) row =
          .ok ⟨row.id, false, out⟩ := by
        rw [recheck, hown, hinlog]
        exact map_eq_ok.mpr ⟨out, hout, rfl⟩
      have hnull : (Entry.mk row.id false out).mark = .null := hmark
      exact absurd hidem (not_idempotent hrow (by simp) hx rfl (by rw [hnull]; rfl)
        (by rw [hnull]; simp))
    | some seed =>
      refine ⟨seed, hseed, fun a ha hcheck v hv => ?_⟩
      by_contra hbad
      obtain ⟨hne, hhash⟩ := not_or.mp hbad
      obtain ⟨out, hout⟩ := recheckOne_of_checked hseed hcheck
      have hmark : getNone out seedKey = v := by rw [(recheckOne_reply hseed a hout).2, hv]; rfl
      have hx : recheck env log rawByC (replyTo row.id (.ok a)) row = .ok ⟨row.id, false, out⟩ := by
        rw [recheck, hown]
        exact map_eq_ok.mpr ⟨out, hout, by simp [Except.isOk, Except.toBool]⟩
      exact not_idempotent hrow (fun r hr =>
        Except.ok.inj hr ▸ ha) hx rfl (by simpa [Entry.mark, hmark] using hhash)
        (by simpa [Entry.mark, hmark] using hne) hidem
  · intro hres es hes
    exact ⟨(invariant_runs hres hes).2, fun e e' he _ hcomplete =>
      after_complete hres he hcomplete e'⟩

end Executions

/-- A pool whose only correction is not in the log. -/
def strayPool : Pool plainEnv demoLog [] where
  rows := [⟨[(py "corrector_msg_id", .str (py "m9"))],
    py "m9", by decide +kernel, by decide +kernel⟩]
  distinct := by simp
  found := by decide +kernel

/-- Each of two executions rejects it anew. -/
theorem missing_seed_is_rejected_twice :
    (runs strayPool [replyTo [] (.error []), replyTo [] (.error [])]).map (fun x =>
      (x.source, x.failed, getNone x.row (py "kind"))) =
      [(py "m9", false, .str (py "missing_seed")), (py "m9", false, .str (py "missing_seed"))] := by
  decide +kernel

end AgentTrajectory.RecheckPool
