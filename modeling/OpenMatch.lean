import OpenMatch.Common.Lifetime
import OpenMatch.PriceLevel.Refinement
import OpenMatch.PriceLevel.Invariant
import OpenMatch.PriceLevel.History
import OpenMatch.PriceLevel.Safety
import OpenMatch.PriceLevel.Priority
import OpenMatch.PriceLevel.Rejection
import OpenMatch.PriceLevel.Isolation
import OpenMatch.PriceLevel.Ledger
import OpenMatch.PriceLevel.Recycling
import OpenMatch.PriceLevel.FifoFrame
import OpenMatch.PriceLevel.Replay
import OpenMatch.PriceLevel.Cancellation
import OpenMatch.PriceLevel.Timestamps
import OpenMatch.PriceLevel.Liquidity
import OpenMatch.Common.Consumption
import OpenMatch.OrderBook.Book
import OpenMatch.PriceLevel.Fills
import OpenMatch.PriceLevel.Batch
import OpenMatch.PriceLevel.HeadPath
import OpenMatch.Common.LittleEndian
import OpenMatch.Common.RecordLayout
import OpenMatch.Sbe.Log
import OpenMatch.PriceLevel.Observation
import OpenMatch.PriceLevel.Redelivery
import OpenMatch.PriceLevel.Waiting
import OpenMatch.PriceLevel.Delay
import OpenMatch.Sbe.OptionalField
import OpenMatch.OrderBook.Levels
