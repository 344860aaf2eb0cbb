/-
# Refusals

An operation that does not succeed leaves the pile exactly as it was: the segments with all their
bytes, marks and lists, the figures, the counter of generations, the settings and the state of its
life. For most operations that is so because they look before they change anything. A put that is
refused has by then tried to store in every segment, in three rounds, and has written the segment
back each time; so its part is said of the operations that change a pile in place.

* `Operation.Fails` : an operation does not succeed.
* `Segment.checkedStore_eq_none`, `Pile.checkedAsk_eq_none` : an attempt without room leaves the
  segment, the counter and the pile.
* `Pile.Atomic` : what fails leaves the pile as it was; `Session.refusals_of_run` : at all times.
-/
import ObjectPile.Pile.Object
import ObjectPile.Proofs.CheckedPiles

namespace ObjectPile

/-! ## Failing -/

/-- An answer that gives out no pointer to a payload. -/
def Refused (result : Except PileError Pointer) : Prop := ∀ q, result = .ok q → q = .invalid

/-- **An operation does not succeed**: it answers with an error, or it is a put that gives out no
pointer or a delete on a pile that is not started. Reading never changes a pile and counts as well;
purging and stopping always succeed. -/
def Operation.Fails (p : Pile) : Operation → Response → Prop
  | .configure _, .done result | .configureFrom _, .done result | .start, .done result =>
    result ≠ .ok ()
  | .put .., .pointer result => Refused result
  | .delete _, .done result => result ≠ .ok () ∨ p.state ≠ .started
  | .get _, _ | .getVersioned _, _ | .withPayload _, _ | .lengthOf _, _ | .rawBuffer _, _ => True
  | _, _ => False

/-- Stores a value under the version of its codec, with every check made on the way. -/
def Pile.checkedPutObject {α : Type} (p : Pile) (codec : Codec α) (v : α) :
    Checked (Except PileError Pointer × Pile) :=
  match codec.encode v with
  | .error e => return (.error (.codec e), p)
  | .ok payload => p.checkedPut payload codec.version

/-- **What fails leaves the pile as it was**, also where the pile is changed in place. Loading a value
through a codec is a read and gives no pile back at all. -/
structure Pile.Atomic (p : Pile) : Prop where
  perform : ∀ op, op.Fails p (p.perform op).1 → (p.perform op).2 = p
  checkedPerform : ∀ op response p', p.checkedPerform op = .ok (response, p') →
    op.Fails p response → p' = p
  putObject : ∀ {α : Type} (codec : Codec α) (v : α),
    Refused (p.putObject codec v).result → (p.putObject codec v).pile = p
  checkedPutObject : ∀ {α : Type} (codec : Codec α) (v : α) (result : Except PileError Pointer)
    (p' : Pile), p.checkedPutObject codec v = .ok (result, p') → Refused result → p' = p

open Settings (exists_of_bind_eq_ok)

/-! ## Attempts to store -/

namespace Segment

variable {policy : AllocationPolicy} {request : ChunkRequest} {payload : List UInt8}
  {version : CodecVersion} {s s' : Segment} {next next' : Nat}

/-- A search that finds no chunk and no room at the cursor leaves the segment as it was. -/
theorem checkedAllocate_eq_none (h : s.checkedAllocate policy request = .ok (none, s')) :
    s' = s := by
  obtain ⟨found, -, h⟩ := exists_of_bind_eq_ok h
  cases found with
  | some offset =>
    obtain ⟨taken, -, h⟩ := exists_of_bind_eq_ok h
    simp [pure, Except.pure] at h
  | none =>
    unfold checkedExtend at h
    simp only at h
    split at h
    · obtain ⟨marked, -, h⟩ := exists_of_bind_eq_ok h
      simp [pure, Except.pure] at h
    · exact (Prod.mk.inj (Except.ok.inj h)).2.symm

/-- **An attempt without room leaves the segment and the counter as they were.** -/
theorem checkedStore_eq_none (h : s.checkedStore policy request payload version next =
    .ok (none, s', next')) : s' = s ∧ next' = next := by
  obtain ⟨-, -, h⟩ := exists_of_bind_eq_ok h
  obtain ⟨⟨place, t⟩, hallocate, h⟩ := exists_of_bind_eq_ok h
  cases place with
  | none =>
    obtain ⟨-, hrest⟩ := Prod.mk.inj (Except.ok.inj h)
    obtain ⟨rfl, rfl⟩ := Prod.mk.inj hrest
    exact ⟨checkedAllocate_eq_none hallocate, rfl⟩
  | some place =>
    obtain ⟨-, -, h⟩ := exists_of_bind_eq_ok h
    obtain ⟨written, -, h⟩ := exists_of_bind_eq_ok h
    obtain ⟨stored, -, h⟩ := exists_of_bind_eq_ok h
    simp [pure, Except.pure] at h

/-- A payload that is stored has a generation. -/
theorem checkedStore_eq_some {offset generation : Nat}
    (h : s.checkedStore policy request payload version next =
      .ok (some (offset, generation), s', next')) : generation ≠ 0 := by
  obtain ⟨-, -, h⟩ := exists_of_bind_eq_ok h
  obtain ⟨⟨place, t⟩, -, h⟩ := exists_of_bind_eq_ok h
  cases place with
  | none => simp [pure, Except.pure] at h
  | some place =>
    obtain ⟨passed, hrequire, h⟩ := exists_of_bind_eq_ok h
    obtain ⟨written, -, h⟩ := exists_of_bind_eq_ok h
    obtain ⟨stored, -, h⟩ := exists_of_bind_eq_ok h
    obtain ⟨hplace, -⟩ := Prod.mk.inj (Except.ok.inj h)
    obtain ⟨-, rfl⟩ := Prod.mk.inj (Option.some.inj hplace)
    rintro rfl
    simp [require] at hrequire

end Segment

namespace Pile

variable {p p' : Pile} {s s' : Segment} {i : Nat} {is : List Nat} {request : ChunkRequest}
  {payload : List UInt8} {version : CodecVersion} {q : Pointer}

theorem checkedStoreIn_eq_none (h : p.checkedStoreIn s i request payload version =
    .ok (none, s', p')) : s' = s ∧ p' = p := by
  obtain ⟨⟨stored, t, next⟩, hstore, h⟩ := exists_of_bind_eq_ok h
  cases stored with
  | none =>
    obtain ⟨rfl, rfl⟩ := Segment.checkedStore_eq_none hstore
    obtain ⟨-, hrest⟩ := Prod.mk.inj (Except.ok.inj h)
    obtain ⟨rfl, rfl⟩ := Prod.mk.inj hrest
    exact ⟨rfl, rfl⟩
  | some place =>
    obtain ⟨index, -, h⟩ := exists_of_bind_eq_ok h
    obtain ⟨offset, -, h⟩ := exists_of_bind_eq_ok h
    simp [pure, Except.pure] at h

theorem checkedStoreIn_eq_some (h : p.checkedStoreIn s i request payload version =
    .ok (some q, s', p')) : q ≠ .invalid := by
  obtain ⟨⟨stored, t, next⟩, hstore, h⟩ := exists_of_bind_eq_ok h
  cases stored with
  | none => simp [pure, Except.pure] at h
  | some place =>
    obtain ⟨index, -, h⟩ := exists_of_bind_eq_ok h
    obtain ⟨offset, -, h⟩ := exists_of_bind_eq_ok h
    obtain ⟨hq, -⟩ := Prod.mk.inj (Except.ok.inj h)
    obtain rfl := Option.some.inj hq
    intro hinvalid
    exact Segment.checkedStore_eq_some hstore (congrArg Pointer.generation hinvalid)

/-- **A round in which no segment has room leaves the pile as it was.** -/
theorem checkedAsk_eq_none (h : checkedAsk request payload version is p = .ok (none, p')) :
    p' = p := by
  induction is with
  | nil => exact (Prod.mk.inj (Except.ok.inj h)).2.symm
  | cons i is ih =>
    unfold checkedAsk at h
    cases hslot : p.slot? i with
    | none =>
      rw [hslot] at h
      exact ih h
    | some s =>
      rw [hslot] at h
      obtain ⟨⟨stored, t, p₁⟩, hstore, hrest⟩ := exists_of_bind_eq_ok h
      cases stored with
      | none =>
        -- the segment is written back as it was
        obtain ⟨rfl, rfl⟩ := checkedStoreIn_eq_none hstore
        simp only at hrest
        rw [setSlot_self hslot] at hrest
        exact ih hrest
      | some place => simp [pure, Except.pure] at hrest

theorem checkedAsk_eq_some (h : checkedAsk request payload version is p = .ok (some q, p')) :
    q ≠ .invalid := by
  induction is generalizing p with
  | nil => simp [checkedAsk, pure, Except.pure] at h
  | cons i is ih =>
    unfold checkedAsk at h
    cases hslot : p.slot? i with
    | none =>
      rw [hslot] at h
      exact ih h
    | some s =>
      rw [hslot] at h
      obtain ⟨⟨stored, t, p₁⟩, hstore, h⟩ := exists_of_bind_eq_ok h
      cases stored with
      | none => exact ih h
      | some place =>
        obtain ⟨hq, -⟩ := Prod.mk.inj (Except.ok.inj h)
        obtain rfl := Option.some.inj hq
        exact checkedStoreIn_eq_some hstore

/-- **After three rounds in which no segment has room the pile is as it was.** -/
theorem checkedAskAll_eq_none (h : p.checkedAskAll request payload version = .ok (none, p')) :
    p' = p := by
  obtain ⟨⟨first, p₁⟩, hfirst, h⟩ := exists_of_bind_eq_ok h
  cases first with
  | some q => simp [pure, Except.pure] at h
  | none =>
    obtain ⟨⟨second, p₂⟩, hsecond, h⟩ := exists_of_bind_eq_ok h
    cases second with
    | some q => simp [pure, Except.pure] at h
    | none =>
      calc p' = p₂ := checkedAsk_eq_none h
        _ = p₁ := checkedAsk_eq_none hsecond
        _ = p := checkedAsk_eq_none hfirst

theorem checkedAskAll_eq_some (h : p.checkedAskAll request payload version = .ok (some q, p')) :
    q ≠ .invalid := by
  obtain ⟨⟨first, p₁⟩, hfirst, h⟩ := exists_of_bind_eq_ok h
  cases first with
  | some r =>
    obtain ⟨hq, -⟩ := Prod.mk.inj (Except.ok.inj h)
    obtain rfl := Option.some.inj hq
    exact checkedAsk_eq_some hfirst
  | none =>
    obtain ⟨⟨second, p₂⟩, hsecond, h⟩ := exists_of_bind_eq_ok h
    cases second with
    | some r =>
      obtain ⟨hq, -⟩ := Prod.mk.inj (Except.ok.inj h)
      obtain rfl := Option.some.inj hq
      exact checkedAsk_eq_some hsecond
    | none => exact checkedAsk_eq_some h

theorem checkedPutInNew_eq_ok (h : p.checkedPutInNew request payload version = .ok (q, p')) :
    q ≠ .invalid := by
  obtain ⟨-, -, h⟩ := exists_of_bind_eq_ok h
  obtain ⟨⟨stored, t, p₁⟩, hstore, h⟩ := exists_of_bind_eq_ok h
  cases stored with
  | none => simp [throw, throwThe, MonadExceptOf.throw] at h
  | some r =>
    obtain ⟨slots, -, h⟩ := exists_of_bind_eq_ok h
    obtain ⟨rfl, -⟩ := Prod.mk.inj (Except.ok.inj h)
    exact checkedStoreIn_eq_some hstore

/-! ## Operations that answer with the pile afterwards -/

theorem configure_eq_of_fails {options : ConfigSection}
    (h : (p.configure options).result ≠ .ok ()) : (p.configure options).pile = p := by
  unfold configure at *
  by_cases hconfigurable : p.isConfigurable = true
  · rw [if_pos hconfigurable] at h ⊢
    cases happly : p.settings.apply options with
    | error e => rfl
    | ok settings =>
      rw [happly] at h
      exact absurd rfl h
  · rw [if_neg hconfigurable]
    rfl

theorem configureFrom_eq_of_fails {document : ConfigDocument}
    (h : (p.configureFrom document).result ≠ .ok ()) : (p.configureFrom document).pile = p := by
  unfold configureFrom at *
  cases hsection : document.section? p.name with
  | some options =>
    rw [hsection] at h
    exact configure_eq_of_fails h
  | none =>
    rw [hsection] at h
    simp only at h ⊢
    split at h
    · exact absurd rfl h
    · rename_i hnot
      rw [if_neg hnot]
      rfl

theorem start_eq_of_fails (h : p.start.result ≠ .ok ()) : p.start.pile = p := by
  unfold start at *
  cases hstate : p.state with
  | created => simp [hstate] at h
  | configured => simp [hstate] at h
  | started => rfl
  | stopped => rfl

theorem put_eq_of_refused (hpos : 0 < p.nextGeneration)
    (h : Refused (p.put payload version).result) : (p.put payload version).pile = p := by
  -- a pointer that is given out carries the next generation, and so is valid
  have hvalid : ∀ i offset, p.nextPointer i offset ≠ .invalid := by
    intro i offset heq
    have hzero : p.nextGeneration = 0 := congrArg Pointer.generation heq
    omega
  unfold put at *
  simp only at *
  split at h
  · rename_i hstate
    rw [if_pos hstate]
    rfl
  · rename_i hstate
    rw [if_neg hstate]
    split at h
    · rename_i hlong
      rw [if_pos hlong]
      rfl
    · rename_i hlong
      rw [if_neg hlong]
      cases hfound : p.findRoom? (p.policy.classes.classify payload.length) with
      | some room =>
        rw [hfound] at h
        exact absurd (h _ rfl) (hvalid _ _)
      | none =>
        rw [hfound] at h
        simp only at h ⊢
        split at h
        · exact absurd (h _ rfl) (hvalid _ _)
        · rename_i hgrow
          rw [if_neg hgrow]

theorem delete_eq_of_fails (h : (p.delete q).result ≠ .ok () ∨ p.state ≠ .started) :
    (p.delete q).pile = p := by
  unfold delete at *
  cases hview : p.view q fun _ chunk => chunk with
  | error e => rfl
  | ok found =>
    cases found with
    | none => rfl
    | some chunk =>
      rw [hview] at h
      have hstate := h.resolve_left (by simp)
      unfold view at hview
      rw [if_pos hstate] at hview
      split at hview <;> simp at hview

/-! ## Operations that change a pile in place -/

/-- **A put that is refused leaves the pile as it was**, after all its attempts. -/
theorem checkedPut_eq_of_refused {result : Except PileError Pointer}
    (h : p.checkedPut payload version = .ok (result, p')) (hrefused : Refused result) : p' = p := by
  unfold checkedPut at h
  simp only at h
  split at h
  · exact (Prod.mk.inj (Except.ok.inj h)).2.symm
  · split at h
    · exact (Prod.mk.inj (Except.ok.inj h)).2.symm
    · obtain ⟨⟨found, p₁⟩, hask, h⟩ := exists_of_bind_eq_ok h
      cases found with
      | some q =>
        obtain ⟨rfl, -⟩ := Prod.mk.inj (Except.ok.inj h)
        exact absurd (hrefused q rfl) (checkedAskAll_eq_some hask)
      | none =>
        obtain rfl := checkedAskAll_eq_none hask
        simp only at h
        split at h
        · obtain ⟨⟨q, p₂⟩, hnew, h⟩ := exists_of_bind_eq_ok h
          obtain ⟨rfl, -⟩ := Prod.mk.inj (Except.ok.inj h)
          exact absurd (hrefused q rfl) (checkedPutInNew_eq_ok hnew)
        · exact (Prod.mk.inj (Except.ok.inj h)).2.symm

/-- A delete that fails, or that a pile which is not started ignores, leaves the pile as it was. -/
theorem checkedDelete_eq_of_fails {result : Except PileError Unit}
    (h : p.checkedDelete q = .ok (result, p')) (hfails : result ≠ .ok () ∨ p.state ≠ .started) :
    p' = p := by
  obtain ⟨found, hview, h⟩ := exists_of_bind_eq_ok h
  match found, h with
  | .error e, h => exact (Prod.mk.inj (Except.ok.inj h)).2.symm
  | .ok none, h => exact (Prod.mk.inj (Except.ok.inj h)).2.symm
  | .ok (some (chunk, s)), h =>
    obtain ⟨rfl, -⟩ := Prod.mk.inj (Except.ok.inj h)
    have hstate := hfails.resolve_left (by simp)
    unfold checkedView at hview
    rw [if_pos hstate] at hview
    split at hview <;> simp [pure, Except.pure] at hview

/-- Configuring that fails leaves the pile as it was. -/
theorem checkedConfigure_eq_of_fails {options : ConfigSection} {result : Except PileError Unit}
    (h : p.checkedConfigure options = .ok (result, p')) (hfails : result ≠ .ok ()) : p' = p := by
  unfold checkedConfigure at h
  split at h
  · obtain ⟨applied, -, h⟩ := exists_of_bind_eq_ok h
    cases applied with
    | error e => exact (Prod.mk.inj (Except.ok.inj h)).2.symm
    | ok settings =>
      obtain ⟨policy, -, h⟩ := exists_of_bind_eq_ok h
      exact absurd (Prod.mk.inj (Except.ok.inj h)).1.symm hfails
  · exact (Prod.mk.inj (Except.ok.inj h)).2.symm

theorem checkedConfigureFrom_eq_of_fails {document : ConfigDocument}
    {result : Except PileError Unit} (h : p.checkedConfigureFrom document = .ok (result, p'))
    (hfails : result ≠ .ok ()) : p' = p := by
  unfold checkedConfigureFrom at h
  split at h
  · exact checkedConfigure_eq_of_fails h hfails
  · split at h
    · exact absurd (Prod.mk.inj (Except.ok.inj h)).1.symm hfails
    · exact (Prod.mk.inj (Except.ok.inj h)).2.symm

/-- **What fails in place leaves the pile as it was.** -/
theorem checkedPerform_eq_of_fails {op : Operation} {response : Response}
    (h : p.checkedPerform op = .ok (response, p')) (hfails : op.Fails p response) : p' = p := by
  cases op with
  | configure options =>
    obtain ⟨⟨result, p₁⟩, hconfigure, h⟩ := exists_of_bind_eq_ok h
    obtain ⟨rfl, rfl⟩ := Prod.mk.inj (Except.ok.inj h)
    exact checkedConfigure_eq_of_fails hconfigure hfails
  | configureFrom document =>
    obtain ⟨⟨result, p₁⟩, hconfigure, h⟩ := exists_of_bind_eq_ok h
    obtain ⟨rfl, rfl⟩ := Prod.mk.inj (Except.ok.inj h)
    exact checkedConfigureFrom_eq_of_fails hconfigure hfails
  | start =>
    obtain ⟨rfl, rfl⟩ := Prod.mk.inj (Except.ok.inj h)
    exact start_eq_of_fails hfails
  | put payload version =>
    obtain ⟨⟨result, p₁⟩, hput, h⟩ := exists_of_bind_eq_ok h
    obtain ⟨rfl, rfl⟩ := Prod.mk.inj (Except.ok.inj h)
    exact checkedPut_eq_of_refused hput hfails
  | get q | getVersioned q | withPayload q | lengthOf q | rawBuffer q =>
    obtain ⟨found, -, h⟩ := exists_of_bind_eq_ok h
    exact (Prod.mk.inj (Except.ok.inj h)).2.symm
  | delete q =>
    obtain ⟨⟨result, p₁⟩, hdelete, h⟩ := exists_of_bind_eq_ok h
    obtain ⟨rfl, rfl⟩ := Prod.mk.inj (Except.ok.inj h)
    exact checkedDelete_eq_of_fails hdelete hfails
  | purge | stop =>
    obtain ⟨rfl, rfl⟩ := Prod.mk.inj (Except.ok.inj h)
    exact hfails.elim

/-- **What fails leaves the pile as it was.** -/
theorem perform_eq_of_fails (hpos : 0 < p.nextGeneration) {op : Operation}
    (h : op.Fails p (p.perform op).1) : (p.perform op).2 = p := by
  cases op with
  | configure options => exact configure_eq_of_fails h
  | configureFrom document => exact configureFrom_eq_of_fails h
  | start => exact start_eq_of_fails h
  | put payload version => exact put_eq_of_refused hpos h
  | get q | getVersioned q | withPayload q | lengthOf q | rawBuffer q => rfl
  | delete q => exact delete_eq_of_fails h
  | purge | stop => exact h.elim

/-- A pile whose next generation is not zero fails without a trace. -/
theorem atomic_of_pos (hpos : 0 < p.nextGeneration) : p.Atomic where
  perform _ h := perform_eq_of_fails hpos h
  checkedPerform _ _ _ h hfails := checkedPerform_eq_of_fails h hfails
  putObject codec v h := by
    unfold putObject at *
    cases hencode : codec.encode v with
    | error e => rfl
    | ok payload =>
      rw [hencode] at h
      exact put_eq_of_refused hpos h
  checkedPutObject codec v result p' h hrefused := by
    unfold checkedPutObject at h
    cases hencode : codec.encode v with
    | error e =>
      rw [hencode] at h
      exact (Prod.mk.inj (Except.ok.inj h)).2.symm
    | ok payload =>
      rw [hencode] at h
      exact checkedPut_eq_of_refused h hrefused

/-! ## Runs -/

theorem nextGeneration_configure (p : Pile) (options : ConfigSection) :
    (p.configure options).pile.nextGeneration = p.nextGeneration := by
  unfold configure
  split
  · split <;> rfl
  · rfl

theorem nextGeneration_configureFrom (p : Pile) (document : ConfigDocument) :
    (p.configureFrom document).pile.nextGeneration = p.nextGeneration := by
  unfold configureFrom
  split
  · exact p.nextGeneration_configure _
  · split <;> rfl

theorem nextGeneration_start (p : Pile) : p.start.pile.nextGeneration = p.nextGeneration := by
  unfold start
  split <;> rfl

theorem nextGeneration_le_put (p : Pile) (payload : List UInt8) (version : CodecVersion) :
    p.nextGeneration ≤ (p.put payload version).pile.nextGeneration := by
  unfold put
  simp only
  split
  · exact Nat.le_refl _
  · split
    · exact Nat.le_refl _
    · split
      · exact Nat.le_succ _
      · split
        · exact Nat.le_succ _
        · exact Nat.le_refl _

theorem nextGeneration_delete (p : Pile) (q : Pointer) :
    (p.delete q).pile.nextGeneration = p.nextGeneration := by
  unfold delete
  split
  · rfl
  · rfl
  · simp only [releaseIfEmpty]
    split <;> rfl

theorem nextGeneration_stop (p : Pile) : p.stop.pile.nextGeneration = p.nextGeneration := by
  unfold stop
  split <;> rfl

/-- Generations only go up. -/
theorem nextGeneration_le_perform (p : Pile) (op : Operation) :
    p.nextGeneration ≤ (p.perform op).2.nextGeneration := by
  cases op with
  | configure options => exact (p.nextGeneration_configure options).ge
  | configureFrom document => exact (p.nextGeneration_configureFrom document).ge
  | start => exact p.nextGeneration_start.ge
  | put payload version => exact p.nextGeneration_le_put payload version
  | get q | getVersioned q | withPayload q | lengthOf q | rawBuffer q => exact Nat.le_refl _
  | delete q => exact (p.nextGeneration_delete q).ge
  | purge => exact Nat.le_refl _
  | stop => exact p.nextGeneration_stop.ge

end Pile

namespace Session

theorem nextGeneration_le_run (session : Session) (ops : List Operation) :
    session.pile.nextGeneration ≤ (session.run ops).pile.nextGeneration := by
  induction ops generalizing session with
  | nil => exact Nat.le_refl _
  | cons op ops ih =>
    exact Nat.le_trans (session.pile.nextGeneration_le_perform op) (ih (session.step op))

/-- **Refusals along a run.** After every run of a new pile, what fails leaves the pile exactly as
it was. -/
theorem refusals_of_run {p : Pile} (hnew : p.IsNew) (ops : List Operation) :
    ((new p).run ops).pile.Atomic := by
  have hle := nextGeneration_le_run (new p) ops
  have hone : (new p).pile.nextGeneration = 1 := hnew.sound.2.1
  exact Pile.atomic_of_pos (by omega)

/-- A run that leaves a pile at its limit of one segment, which is full. -/
def crowding : List Operation :=
  [.configure { segmentSize := some 65536, freeChunkSizes := some (.list [16, 65504]) },
    .configure { maxSegmentLimit := some 1 }, .start, .put (List.replicate 17 7) .raw]

/-- The pile after that run. -/
def crowded : Pile := ((new (.create 1 none)).run crowding).pile

/-- A put for which there is no room draws no generation, in place or not. -/
theorem refusals_of_crowding : (crowded.put [1]).result = .error (.outOfSpace 1 1 65536) ∧
    (crowded.put [1]).pile = crowded ∧
      crowded.checkedPut [1] .raw = .ok (.error (.outOfSpace 1 1 65536), crowded) := by
  have hatomic : crowded.Atomic := refusals_of_run (Pile.isNew_create 1 none) crowding
  have hrefused : Refused (.error (.outOfSpace 1 1 65536)) := nofun
  have hput : (crowded.put [1]).result = .error (.outOfSpace 1 1 65536) := by decide +kernel
  have hchecked : (crowded.checkedPut [1] .raw).map Prod.fst =
      .ok (.error (.outOfSpace 1 1 65536)) := by decide +kernel
  refine ⟨hput, ?_, ?_⟩
  · refine hatomic.perform (.put [1] .raw) ?_
    show Refused (crowded.put [1] .raw).result
    rwa [hput]
  · cases hresult : crowded.checkedPut [1] .raw with
    | error fault => simp [hresult, Except.map] at hchecked
    | ok found =>
      obtain ⟨result, p'⟩ := found
      rw [hresult] at hchecked
      obtain rfl := Except.ok.inj hchecked
      have hperform : crowded.checkedPerform (.put [1] .raw) =
          .ok (.pointer (.error (.outOfSpace 1 1 65536)), p') := by
        unfold Pile.checkedPerform
        simp only
        rw [hresult]
        rfl
      rw [hatomic.checkedPerform _ _ _ hperform hrefused]

end Session

end ObjectPile
