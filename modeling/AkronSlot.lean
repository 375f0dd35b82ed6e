import AkronSlot.Bridge.AccountPath
import AkronSlot.Bridge.Correlation
import AkronSlot.Bridge.Fills
import AkronSlot.Bridge.LevelPatches
import AkronSlot.Bridge.OrderLookup
import AkronSlot.Bridge.QueryResults
import AkronSlot.Bridge.ResponseDelivery
import AkronSlot.Bridge.ServiceEvents
import AkronSlot.Bridge.TradeEvents
import AkronSlot.Bridge.TradePath
import AkronSlot.Mql5.ArrayLoops
import AkronSlot.Mql5.ClientArrays
import AkronSlot.Mql5.CommandServer
import AkronSlot.Mql5.Escapes
import AkronSlot.Mql5.SendFrame
import AkronSlot.Slot.AccountPublisher
import AkronSlot.Slot.AccountRefs
import AkronSlot.Slot.Attribution
import AkronSlot.Slot.Auth
import AkronSlot.Slot.ChunkedFrames
import AkronSlot.Slot.EntryPrices
import AkronSlot.Slot.EventStreams
import AkronSlot.Slot.EventsFile
import AkronSlot.Slot.FillNetting
import AkronSlot.Slot.FillStore
import AkronSlot.Slot.LedgerIsolation
import AkronSlot.Slot.LedgerOps
import AkronSlot.Slot.LoginTitles
import AkronSlot.Slot.LoginTransitions
import AkronSlot.Slot.Migrations
import AkronSlot.Slot.OcrNumbers
import AkronSlot.Slot.OrderLifecycle
import AkronSlot.Slot.PartialFills
import AkronSlot.Slot.Publishers
import AkronSlot.Slot.QueryFailures
import AkronSlot.Slot.Reconciler
import AkronSlot.Slot.Redelivery
import AkronSlot.Slot.RiskGate
import AkronSlot.Slot.SimCloses
import AkronSlot.Slot.TradeStreams
import AkronSlot.Slot.ValidationOrder
import AkronSlot.Slot.WsProxy
import AkronSlot.Bridge.ServiceEvents
