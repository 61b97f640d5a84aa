import Mathlib.Data.Nat.Basic

/-!
# MarketData.Kafka

What the two Kafka consumers of the system (`src/engine/engine.py`,
`src/storage/tick_writer.py`) see of `confluent_kafka`: partitions, messages, and the
possible results of `consumer.poll`. The message value is left abstract; each consumer
brings its own parser.
-/

namespace MarketData

/-- A partition, `(topic, partition)`. -/
abbrev PartitionKey := String × Int

/-- A Kafka message that carries a record. -/
structure KafkaMessage (ρ : Type) where
  topic : String
  partition : Int
  offset : Nat
  value : ρ
  deriving DecidableEq

/-- The partition of a message. -/
def KafkaMessage.key {ρ : Type} (m : KafkaMessage ρ) : PartitionKey := (m.topic, m.partition)

/-- What `consumer.poll` can produce. -/
inductive PollResult (ρ : Type)
  /-- `None`: nothing within the timeout. -/
  | nothing
  /-- A message with `error()` set, `_PARTITION_EOF` included. -/
  | error
  | message (m : KafkaMessage ρ)
  /-- The call raises. -/
  | raised
  deriving DecidableEq

end MarketData
