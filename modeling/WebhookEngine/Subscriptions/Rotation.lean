import WebhookEngine.Lib.Run
import WebhookEngine.SignedPosts
import WebhookEngine.Subscriptions.Pg

/-!
# Grace windows of successive rotations

The successful `rotate_secret` calls on one subscription of the Postgres store. Each
promises that the secret which it replaces verifies for its grace period; the row has
room for one previous secret.

* `honoured_iff`: the row signs with all that is promised exactly while no rotation
  drops a secret whose window is open;
* `rotations_verify`: in such runs every delivery verifies under every secret in its
  window, and under the newest one.
-/

namespace WebhookEngine.Subscriptions.Rotation

open Lib Run Pg SignedPosts Dispatcher

/-- A call of `rotate_secret`, with the time it reads. -/
structure RotateSecret where
  graceS : Int
  secret : Option String
  token : Token
  now : Datetime

def RotateSecret.new (c : RotateSecret) : String := orToken c.secret c.token

def RotateSecret.until_ (c : RotateSecret) : Datetime := c.now + c.graceS

/-- A secret that has been replaced, to verify until then. -/
structure Promise where
  secret : String
  until_ : Datetime

/-- The table, what has been promised, the newest secret and the time of the last call. -/
structure World where
  table : PgTable
  promises : List Promise
  newest : String
  now : Datetime

/-- Before the first call. -/
def start (t : PgTable) (m : SecretMaterial) (now : Datetime) : World := ⟨t, [], m.current, now⟩

/-- A successful call, not before the last one. -/
def step (cipher : SecretCipher) (id : SubscriptionId) (w : World) (c : RotateSecret) :
    Option World :=
  if w.now ≤ c.now then
    match getSecret cipher w.table id,
      rotateSecret cipher w.table id c.graceS c.secret c.token c.now with
    | some before, some (t, .rotated _) =>
      some ⟨t, w.promises ++ [⟨before.current, c.until_⟩], c.new, c.now⟩
    | _, _ => none
  else none

/-- The call drops no secret whose window is open after it: such a secret is the new one, or
the one that it replaces with a window that ends no later. -/
def Keeps (w : World) (c : RotateSecret) : Prop :=
  ∀ p ∈ w.promises, c.now < p.until_ →
    p.secret = c.new ∨ p.secret = w.newest ∧ p.until_ ≤ c.until_

instance (w : World) (c : RotateSecret) : Decidable (Keeps w c) := by
  unfold Keeps
  infer_instance

/-- The secrets that a delivery is signed with. -/
def signing (m : SecretMaterial) (u : Datetime) : List String :=
  m.current :: (m.previousAt u).toList

/-- The row signs with every secret that is promised, from the last call on. -/
def Honoured (cipher : SecretCipher) (id : SubscriptionId) (w : World) : Prop :=
  ∃ m, getSecret cipher w.table id = some m ∧
    ∀ p ∈ w.promises, ∀ u, w.now ≤ u → u < p.until_ → p.secret ∈ signing m u

/-- The row is there, under the newest secret. -/
def Newest (cipher : SecretCipher) (id : SubscriptionId) (w : World) : Prop :=
  ∃ m, getSecret cipher w.table id = some m ∧ m.current = w.newest

variable {cipher : SecretCipher} {id : SubscriptionId}

/-- The material after a call: the new secret, and the one of before until the end of
the call's own window. -/
theorem step_spec {w w' : World} {c : RotateSecret} (h : step cipher id w c = some w')
    (hw : Newest cipher id w) : w.now ≤ c.now ∧ 0 ≤ c.graceS ∧ w'.now = c.now ∧
      w'.newest = c.new ∧ w'.promises = w.promises ++ [⟨w.newest, c.until_⟩] ∧
      getSecret cipher w'.table id = some ⟨c.new, some w.newest, some c.until_⟩ := by
  obtain ⟨m, hm, hnewest⟩ := hw
  unfold step at h
  obtain ⟨hnow, h⟩ := Option.ite_none_right_eq_some.mp h
  rw [hm] at h
  split at h
  next before t m' hbefore hrotate =>
    cases hbefore
    cases h
    have hgrace : 0 ≤ c.graceS := by
      by_contra hneg
      rw [rotateSecret, graceUntil, if_pos (not_le.mp hneg)] at hrotate
      cases hrotate
    obtain ⟨rfl, hsecret⟩ := getSecret_rotateSecret hm hrotate
    rw [hnewest] at hsecret
    refine ⟨hnow, hgrace, rfl, rfl, ?_, hsecret⟩
    rw [hnewest]
  · cases h

theorem newest_step {w w' : World} {c : RotateSecret} (h : step cipher id w c = some w')
    (hw : Newest cipher id w) : Newest cipher id w' := by
  obtain ⟨-, -, -, hnew, -, hsecret⟩ := step_spec h hw
  exact ⟨_, hsecret, hnew.symm⟩

theorem mem_signing {new old secret : String} {until_ u : Datetime} :
    secret ∈ signing ⟨new, some old, some until_⟩ u ↔
      secret = new ∨ secret = old ∧ u < until_ := by
  unfold signing SecretMaterial.previousAt
  by_cases hu : until_ ≤ u
  · simp [hu, not_lt.mpr hu]
  · simp [hu, not_le.mp hu]

/-- **One call.** The row keeps what is promised if and only if the call drops nothing. -/
theorem honoured_step_iff {w w' : World} {c : RotateSecret} (h : step cipher id w c = some w')
    (hw : Newest cipher id w) : Honoured cipher id w' ↔ Keeps w c := by
  obtain ⟨-, hgrace, hnow, -, hpromises, hsecret⟩ := step_spec h hw
  have hself : c.now ≤ c.until_ := by
    have hcast : (0 : ℚ) ≤ c.graceS := by exact_mod_cast hgrace
    exact le_add_of_nonneg_right hcast
  unfold Honoured
  rw [hpromises, hnow]
  constructor
  · rintro ⟨m, hm, hall⟩ p hp hopen
    cases hsecret.symm.trans hm
    have hsigned := hall p (List.mem_append_left _ hp)
    rcases mem_signing.mp (hsigned c.now le_rfl hopen) with hnew | ⟨hold, -⟩
    · exact .inl hnew
    · -- at the end of the call's own window only the new secret is left
      by_cases hlonger : c.until_ < p.until_
      · rcases mem_signing.mp (hsigned c.until_ hself hlonger) with hnew | ⟨-, habsurd⟩
        · exact .inl hnew
        · exact absurd habsurd (lt_irrefl _)
      · exact .inr ⟨hold, not_lt.mp hlonger⟩
  · intro hkeeps
    refine ⟨_, hsecret, fun p hp u hu hopen => mem_signing.mpr ?_⟩
    rcases List.mem_append.mp hp with hp | hp
    · rcases hkeeps p hp (hu.trans_lt hopen) with hnew | ⟨hold, hshorter⟩
      · exact .inl hnew
      · exact .inr ⟨hold, hopen.trans_le hshorter⟩
    · obtain rfl := List.mem_singleton.mp hp
      exact .inr ⟨rfl, hopen⟩

/-- **Exactly the runs that drop nothing** keep every promise after every call. -/
theorem honoured_iff {w w' : World} {calls : List RotateSecret} (hw : Newest cipher id w)
    (hrun : run (step cipher id) w calls = some w') :
    Along (step cipher id) (fun u c => ∀ v, step cipher id u c = some v → Honoured cipher id v) w
        calls ↔ Along (step cipher id) Keeps w calls := by
  refine along_iff (I := Newest cipher id) (fun u c v hu huv => ?_)
    (fun u c v hu _ huv => newest_step huv hu) hw hrun
  constructor
  · intro hall
    exact (honoured_step_iff huv hu).mp (hall v huv)
  · intro hkeeps v' hv'
    cases huv.symm.trans hv'
    exact (honoured_step_iff huv hu).mpr hkeeps

/-- What a run of such calls ends in. -/
theorem honoured_run {t : PgTable} {m : SecretMaterial} {now : Datetime}
    {calls : List RotateSecret} {w : World} (hm : getSecret cipher t id = some m)
    (hrun : run (step cipher id) (start t m now) calls = some w)
    (hkeeps : Along (step cipher id) Keeps (start t m now) calls) :
    Newest cipher id w ∧ Honoured cipher id w := by
  have hstart : Newest cipher id (start t m now) ∧ Honoured cipher id (start t m now) :=
    ⟨⟨m, hm, rfl⟩, m, hm, fun p hp => by cases hp⟩
  refine run_preserves (I := fun w => Newest cipher id w ∧ Honoured cipher id w)
    (fun u c v hu hc huv => ?_) hkeeps hstart hrun
  exact ⟨newest_step huv hu.1, (honoured_step_iff huv hu.1).mpr hc⟩

/-- **Every promised secret verifies**, in the runs whose calls drop nothing, and so does the
newest one, whatever is delivered. -/
theorem rotations_verify {py : Python} (t : PgTable) (m : SecretMaterial) (now : Datetime)
    (calls : List RotateSecret) (w : World) (hm : getSecret cipher t id = some m)
    (hrun : run (step cipher id) (start t m now) calls = some w)
    (hkeeps : Along (step cipher id) Keeps (start t m now) calls) (d : WebhookDispatcher py)
    (r : DeliveryRecord) (ans : Answers) (call : HttpSender.PostCall) (hsigner : ShippedSigner d r)
    (hsecret : ans.secret = getSecret cipher w.table id) (hnow : w.now ≤ ans.now)
    (hpost : (send d r ans).post = some call) :
    Accepted py call ans.now w.newest ∧
    ∀ p ∈ w.promises, ans.now < p.until_ → Accepted py call ans.now p.secret := by
  obtain ⟨⟨m', hm', hnewest⟩, ⟨m'', hm'', hall⟩⟩ := honoured_run hm hrun hkeeps
  cases hm'.symm.trans hm''
  rw [hm'] at hsecret
  obtain ⟨hcurrent, hprevious, -⟩ := posted_verifies d r ans call m' hsigner hsecret hpost
  refine ⟨hnewest ▸ hcurrent, fun p hp hopen => ?_⟩
  rcases List.mem_cons.mp (hall p hp ans.now hnow hopen) with hsame | hold
  · rw [hsame]
    exact hcurrent
  · rw [Option.mem_toList, SecretMaterial.previousAt] at hold
    split at hold
    next previous expires hprev hexpires =>
      obtain ⟨hlt, hold⟩ := Option.ite_none_left_eq_some.mp hold
      cases hold
      exact hprevious _ expires hprev hexpires (not_le.mp hlt)
    · cases hold

/-! ## Rotations of one subscription -/

def exampleTable : PgTable :=
  (Pg.create identityCipher .empty (exampleCreation "sub_1" "owner-a")).getD .empty

def exampleRotation (secret : String) (graceS : Int) (now : Datetime) : RotateSecret :=
  ⟨graceS, some secret, ⟨"t", by decide⟩, now⟩

def exampleAnswersOf (w : World) (now : Datetime) : Answers :=
  { exampleAnswers now (some "8.8.8.8") with secret := getSecret identityCipher w.table "sub_1" }

/-- The state after the calls, and a delivery signed then with the secrets of the table. -/
def exampleDelivery (calls : List RotateSecret) (now : Datetime) :
    Option (World × HttpSender.PostCall) :=
  (run (step identityCipher "sub_1") (start exampleTable ⟨"s0", none, none⟩ 0) calls).bind fun w =>
    (send exampleDispatcher (exampleRecord "d" "https://example.com/hook")
      (exampleAnswersOf w now)).post.map fun call => (w, call)

/-- The second call comes after the window of the first. -/
def exampleWindows : List RotateSecret :=
  [exampleRotation "previous" 60 0, exampleRotation "current" 60 100]

theorem exampleSigner :
    ShippedSigner exampleDispatcher (exampleRecord "d" "https://example.com/hook") := by
  intro profile hprofile
  cases hprofile
  rfl

theorem exampleDelivery_some {calls : List RotateSecret} {now : Datetime} {w : World}
    {call : HttpSender.PostCall} (h : exampleDelivery calls now = some (w, call)) :
    run (step identityCipher "sub_1") (start exampleTable ⟨"s0", none, none⟩ 0) calls = some w ∧
      (send exampleDispatcher (exampleRecord "d" "https://example.com/hook")
        (exampleAnswersOf w now)).post = some call := by
  obtain ⟨w', hrun, h⟩ := Option.bind_eq_some_iff.mp h
  obtain ⟨call', hpost, heq⟩ := Option.map_eq_some_iff.mp h
  obtain ⟨rfl, rfl⟩ := Prod.mk.inj heq
  exact ⟨hrun, hpost⟩

theorem rotations_verify_disjoint_windows : ∃ w call,
    exampleDelivery exampleWindows 120 = some (w, call) ∧
      Accepted examplePython call 120 w.newest ∧
      ∀ p ∈ w.promises, 120 < p.until_ → Accepted examplePython call 120 p.secret := by
  obtain ⟨⟨w, call⟩, hdelivery, hnow⟩ := (Option.any_eq_true ..).mp (by decide +kernel :
    (exampleDelivery exampleWindows 120).any (fun x => decide (x.1.now ≤ 120)) = true)
  obtain ⟨hrun, hpost⟩ := exampleDelivery_some hdelivery
  have hm : getSecret identityCipher exampleTable "sub_1" = some ⟨"s0", none, none⟩ := by
    decide +kernel
  have hkeeps : Along (step identityCipher "sub_1") Keeps
      (start exampleTable ⟨"s0", none, none⟩ 0) exampleWindows := by
    decide +kernel
  exact ⟨w, call, hdelivery, rotations_verify exampleTable _ 0 exampleWindows w hm hrun hkeeps
    exampleDispatcher _ (exampleAnswersOf w 120) call exampleSigner rfl
    (of_decide_eq_true hnow) hpost⟩

/-- A second rotation, and a retried one, within the window of the first. -/
def exampleOverlap : List RotateSecret :=
  [exampleRotation "previous" 3600 0, exampleRotation "current" 60 10]

def exampleRetry : List RotateSecret :=
  [exampleRotation "current" 3600 0, exampleRotation "current" 3600 10]

/-- The delivery fails under a secret whose window is open. -/
def Broken (calls : List RotateSecret) (now : Datetime) : Prop :=
  ∃ w call, exampleDelivery calls now = some (w, call) ∧
    ∃ p ∈ w.promises, w.now ≤ now ∧ now < p.until_ ∧ ¬Accepted examplePython call now p.secret

/-- Under a secret whose mac is none of those that the delivery is signed with. -/
theorem broken_of_mac {calls : List RotateSecret} {now : Datetime}
    (h : (exampleDelivery calls now).any (fun x =>
      (getSecret identityCipher x.1.table "sub_1").any fun m => x.1.promises.any fun p =>
        let mac (secret : String) : List Char :=
          (macOf examplePython (exampleRecord "d" "https://example.com/hook") x.2 now secret).hex
        decide (x.1.now ≤ now) && decide (now < p.until_) &&
          decide (mac p.secret ∉ (signing m now).map mac)) = true) :
    Broken calls now := by
  obtain ⟨⟨w, call⟩, hdelivery, h⟩ := (Option.any_eq_true ..).mp h
  obtain ⟨m, hm, h⟩ := (Option.any_eq_true ..).mp h
  obtain ⟨p, hp, h⟩ := List.any_eq_true.mp h
  simp only [Bool.and_eq_true, decide_eq_true_eq] at h
  obtain ⟨⟨hnow, hopen⟩, hmac⟩ := h
  refine ⟨w, call, hdelivery, p, hp, hnow, hopen, fun haccepted => ?_⟩
  obtain ⟨-, hpost⟩ := exampleDelivery_some hdelivery
  have hsecret : (exampleAnswersOf w now).secret = some m := hm
  obtain ⟨headers, hh, hid, hsigned⟩ := posted_signed exampleSigner hsecret hpost
  have hrejected : Rejected examplePython call p.secret := by
    apply rejected_of_not_mem hh hid hsigned
    rw [List.map_cons, List.map_map]
    exact hmac
  exact hrejected.1 now 300 (haccepted.1 now 300 (.inl (by simp)))

theorem windows_overlap : Broken exampleOverlap 20 ∧ Broken exampleRetry 20 :=
  ⟨broken_of_mac (by decide +kernel), broken_of_mac (by decide +kernel)⟩

end WebhookEngine.Subscriptions.Rotation
