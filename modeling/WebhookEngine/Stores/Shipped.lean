import WebhookEngine.Stores.Memory
import WebhookEngine.Stores.Mongo
import WebhookEngine.Stores.Pg
import WebhookEngine.Stores.Redis

/-!
# The shipped delivery stores

The four stores as lease queues, and what their `append_attempt` does to the
attempts counter: in Postgres it sets the counter to the reported attempt number, in
the others it leaves the counter alone.

Every result about runs over `Shipped` has the condition that no key of Redis has expired in
the run: the keys of the deliveries that are sent or dead have a time to live there, the other
stores keep their rows.
-/

namespace WebhookEngine.Stores

open Queue

/-- The delivery stores; `redis` as long as none of its keys has run out. -/
inductive Shipped where
  | memory
  | redis (historyLimit : Nat)
  | mongo (attemptsLimit : Nat)
  | postgres
  deriving DecidableEq, Repr

def Shipped.queue : Shipped → LeaseQueue
  | .memory => Memory.memoryQueue.toLeaseQueue
  | .redis historyLimit => Redis.redisQueue historyLimit
  | .mongo attemptsLimit => (Mongo.mongoQueue attemptsLimit).toLeaseQueue
  | .postgres => Pg.pgQueue.toLeaseQueue

theorem postgres_counter (c : Completion) (old n : Nat) :
    Shipped.postgres.queue.counter c old n = n := rfl

theorem append_keeps_counter {b : Shipped} (hb : b ≠ .postgres) (old n : Nat) :
    b.queue.counter .append old n = old := by
  cases b with
  | postgres => exact absurd rfl hb
  | _ => rfl

end WebhookEngine.Stores
