import Autoscaling.Store

namespace Autoscaling

structure Backend where
  store : Store := ∅
  timings : Option Recorder := none
deriving DecidableEq

namespace Backend

def time (b : Backend) (key : List String) (elapsed : Duration) : Backend :=
  { b with timings := b.timings.map (·.record key elapsed) }

def write (b : Backend) (w : Store.Write) (elapsed : Duration := .zero) : Backend :=
  { b with store := b.store.write w }.time w.key elapsed

def ask (b : Backend) (q : Store.Query) (elapsed : Duration := .zero) : Backend × Store.Answer :=
  (b.time q.key elapsed, b.store.ask q)

end Backend

end Autoscaling
