import CrossplatformBenchmark.Lib.Transition
import CrossplatformBenchmark.Lib.SlidingWindow
import CrossplatformBenchmark.Lib.Paging
import CrossplatformBenchmark.Counter.Reducer
import CrossplatformBenchmark.Counter.Window
import CrossplatformBenchmark.Counter.Compare
import CrossplatformBenchmark.Counter.RenderLoop
import CrossplatformBenchmark.Counter.FrameRate
import CrossplatformBenchmark.Loader.SwiftUI
import CrossplatformBenchmark.Loader.Compose
import CrossplatformBenchmark.Loader.ComposeSafety
import CrossplatformBenchmark.Loader.ComposeScroll
import CrossplatformBenchmark.Loader.ReactNative
import CrossplatformBenchmark.Loader.Agreement
import CrossplatformBenchmark.Counter.Accuracy
import CrossplatformBenchmark.Counter.ClockSetBack
import CrossplatformBenchmark.Counter.Subscription
import CrossplatformBenchmark.Counter.ViewStore
import CrossplatformBenchmark.Loader.ComposeQueue
import CrossplatformBenchmark.Loader.Overlap
import CrossplatformBenchmark.Loader.ReactNativeFailures
import CrossplatformBenchmark.Loader.ComposeFailures
import CrossplatformBenchmark.Loader.SwiftUIGrid
import CrossplatformBenchmark.Counter.ReSwift
import CrossplatformBenchmark.Counter.FrameCallback
import CrossplatformBenchmark.Counter.IntervalLoop
import CrossplatformBenchmark.Loader.SwiftUIProgress
import CrossplatformBenchmark.Loader.ComposeProgress
import CrossplatformBenchmark.Loader.ReactNativeProgress
import CrossplatformBenchmark.Image.Downloader
import CrossplatformBenchmark.Image.LostCallbacks
import CrossplatformBenchmark.Image.ImageCache
import CrossplatformBenchmark.Image.Manager
import CrossplatformBenchmark.Image.Pictures
import CrossplatformBenchmark.Image.LoadsOnce
import CrossplatformBenchmark.Image.Settle
import CrossplatformBenchmark.Home.Navigation
