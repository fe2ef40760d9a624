import StreamClient.Client.Step
import StreamClient.Proofs.Link.Evolution
import StreamClient.Proofs.Pool.Fates
import StreamClient.Proofs.Table

/-! What a client has of each connection, and what the moves of connections do to it. -/

namespace StreamClient

namespace Client

def closes (effects : List Effect) : List Conn :=
  effects.filterMap fun
    | .close c => some c
    | _ => none

@[simp] theorem closes_nil : closes [] = [] := rfl

@[simp] theorem closes_append (a b : List Effect) : closes (a ++ b) = closes a ++ closes b :=
  List.filterMap_append ..

@[simp] theorem closes_map_close (conns : List Conn) : closes (conns.map .close) = conns := by
  simp [closes, List.filterMap_map]

@[simp] theorem closes_map_ofOrder (orders : List (Link.Order Request)) :
    closes (orders.map ofOrder) = Link.closed orders := by
  rw [closes, Link.closed, List.filterMap_map]
  refine List.filterMap_congr fun o _ => ?_
  cases o <;> rfl

/-- How often the client has `x`: cached, idle in a pool, or held by a session. -/
def total (c : Client) (x : Conn) : Nat :=
  c.link.cached.toList.count x + c.pools.total (fun p => p.conns.count x) +
    c.sessions.total fun s => [s.conn].count x

theorem total_of_cached {c : Client} {x : Conn} (h : c.link.cached = some x) : 0 < c.total x := by
  simp only [total, h, Option.toList_some, List.count_cons_self]
  omega

theorem total_of_session {c : Client} {id : CallId} {s : Session} (h : c.sessions.get? id = some s) :
    0 < c.total s.conn := by
  have hshare := Table.share_of_some (f := fun s' => [s'.conn].count s.conn) h
  have hle := c.sessions.share_le (fun s' => [s'.conn].count s.conn) id
  rw [hshare, List.count_singleton_self] at hle
  rw [total]
  omega

theorem total_launch {c : Client} {id : CallId} {s : Session} (h : c.sessions.get? id = none)
    (x : Conn) :
    total { c with sessions := c.sessions.put id s } x = c.total x + [s.conn].count x := by
  have hput := c.sessions.total_put (fun s => [s.conn].count x) id s
  rw [Table.share_of_none h] at hput
  simp only [total]
  omega

theorem total_session {c : Client} {id : CallId} {s s' : Session} (h : c.sessions.get? id = some s)
    (hs : s'.conn = s.conn) (x : Conn) :
    total { c with sessions := c.sessions.put id s' } x = c.total x := by
  have hput := c.sessions.total_put (fun s => [s.conn].count x) id s'
  rw [Table.share_of_some h, hs] at hput
  simp only [total]
  omega

theorem total_erase {c : Client} {id : CallId} {s : Session} (h : c.sessions.get? id = some s)
    (x : Conn) :
    total { c with sessions := c.sessions.erase id } x + [s.conn].count x = c.total x := by
  have herase := c.sessions.total_erase (fun s => [s.conn].count x) id
  rw [Table.share_of_some h] at herase
  simp only [total]
  omega

theorem total_pool (c : Client) (address : Address) (p : Pool) (x : Conn) :
    total { c with pools := c.pools.put address p } x + (c.pool address).conns.count x =
      c.total x + p.conns.count x := by
  have hput := c.pools.total_put (fun p => p.conns.count x) address p
  have hshare : c.pools.share (fun p => p.conns.count x) address =
      (c.pool address).conns.count x := by
    cases h : c.pools.get? address with
    | some p' => rw [Table.share_of_some h, pool, h]; rfl
    | none => rw [Table.share_of_none h, pool, h]; rfl
  simp only [total]
  omega

theorem total_giveBack (c : Client) (address : Address) (conn x : Conn) :
    (c.giveBack address conn).1.total x + (closes (c.giveBack address conn).2).count x =
      c.total x + [conn].count x := by
  cases h : c.pools.get? address with
  | none => simp [giveBack, h, closes]
  | some p =>
    have hpool := c.total_pool address (p.release c.now true conn).1 x
    have hrelease := p.count_release c.now true conn x
    rw [pool, h, Option.getD_some] at hpool
    simp only [giveBack, h, closes_map_close]
    omega

theorem total_pools (c : Client) (f : Pool → Pool × List Conn) (x : Conn)
    (hf : ∀ p, (f p).1.conns.count x + (f p).2.count x = p.conns.count x) :
    total { c with pools := c.pools.map fun _ p => (f p).1 } x +
        (closes (c.pools.values.flatMap fun p => (f p).2.map .close)).count x = c.total x := by
  have hpools : (c.pools.map fun _ p => (f p).1).total (fun p => p.conns.count x) +
      (closes (c.pools.values.flatMap fun p => (f p).2.map .close)).count x =
        c.pools.total fun p => p.conns.count x := by
    -- on the pools, each of which accounts for its own
    rw [Table.total_map, Table.total, Table.values]
    induction c.pools.entries with
    | nil => rfl
    | cons e r ih =>
      have he := hf e.2
      simp only [List.map_cons, List.sum_cons, List.flatMap_cons, closes_append, closes_map_close,
        List.count_append] at ih ⊢
      omega
  simp only [total]
  omega

end Client
end StreamClient
